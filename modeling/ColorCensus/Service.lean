import ColorCensus.Report.Document
import ColorCensus.Scan

/-!
# The service

Scans on request: a scan request takes a root file and is answered with its inventory, and whoever
asks for the health of the service is told that it is there. What a request asks for is not
settled here. It is read by the framework that the service runs in, which answers by itself if the
request goes nowhere or says nothing of use; the service is what comes behind that, and what is
made of a scan that comes to no inventory.
-/

namespace ColorCensus.Service

open Yaml (Reader)

variable {m : Type → Type} [Monad m]

/-- Where a request may go to. -/
inductive Route where
  | health
  | scan
deriving DecidableEq

def Route.method : Route → String
  | health => "GET"
  | scan => "POST"

def Route.path : Route → String
  | health => "/health"
  | scan => "/scan"

/-- A request as it is sent: where it goes, and its body if it has one. -/
structure Request where
  method : String
  path : String
  body : Option Json

structure ScanRequest where
  root : List Char
  workspace : Option (List Char) := none
  maxFiles : Option Int := none

/-- The framework is told to let no other request through: a cap is one file at least. -/
def ScanRequest.isAllowed (r : ScanRequest) : Bool := r.maxFiles.all (1 ≤ ·)

structure Response where
  status : Nat
  body : Json

namespace Response

def answer (body : Json) : Response := ⟨200, body⟩

def refusal (status : Nat) (detail : String) : Response :=
  ⟨status, .obj [("detail", .str detail)]⟩

/-- What the framework answers for a scan that breaks off at a fault nobody takes care of. -/
def broken : Response := ⟨500, .str "Internal Server Error"⟩

end Response

/-- What a request is to the service. -/
inductive Call where
  | health
  | scan (r : ScanRequest)
  /-- It does not get as far as the service. -/
  | answered (response : Response)

def ofFault (fault : Scan.Fault) : Response :=
  if fault.isMissing then .refusal 404 fault.message
  else if fault.isKnown then .refusal 400 fault.message
  else .broken

def scan (reader : Reader) (disk : Disk m) (r : ScanRequest) : m Response := do
  let (result, _) ←
    Scan.run reader disk none (.ofText r.root) (r.workspace.map Path.ofText) r.maxFiles
  pure (match result with
    | .ok inventory => .answer inventory.toJson
    | .error fault => ofFault fault)

/-- The answer to a request, once it is known what it is. -/
def respond (reader : Reader) (disk : Disk m) (receive : Request → Call) (r : Request) :
    m Response :=
  match receive r with
  | .health => pure (.answer (.obj [("status", .str "ok")]))
  | .scan request => scan reader disk request
  | .answered response => pure response

end ColorCensus.Service
