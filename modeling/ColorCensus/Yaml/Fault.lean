import ColorCensus.Yaml.Cursor

/-!
# Faults of a YAML document

A text may fail to spell a document, and then nothing is said about its values. A document may
still hold a scalar that looks like a number or a date and is none, and these faults have a
wording of their own.
-/

namespace ColorCensus.Yaml

inductive Fault where
  | problem (p : Problem)
  | notInteger (base : Nat) (text : List Char)
  | notNumber (text : List Char)
  | tooManyDigits (count : Nat)
  | year
  | month
  | day
  | hour
  | minute
  | second
  /-- An offset from universal time of a day or more, in minutes. -/
  | offset (minutes : Int)
deriving DecidableEq, Repr

/-- A stretch of time as days and seconds of a day. -/
def duration (minutes : Int) : String :=
  let seconds := 60 * (minutes % 1440)
  "datetime.timedelta(days=" ++ toString (minutes / 1440) ++
    (if seconds = 0 then "" else ", seconds=" ++ toString seconds) ++ ")"

def Fault.message : Fault → String
  | problem p => p.message
  | notInteger base text =>
      "invalid literal for int() with base " ++ toString base ++ ": '" ++ String.ofList text ++ "'"
  | notNumber text => "could not convert string to float: '" ++ String.ofList text ++ "'"
  | tooManyDigits count =>
      "Exceeds the limit (4300 digits) for integer string conversion: value has " ++
        toString count ++ " digits; use sys.set_int_max_str_digits() to increase the limit"
  | year => "year 0 is out of range"
  | month => "month must be in 1..12"
  | day => "day is out of range for month"
  | hour => "hour must be in 0..23"
  | minute => "minute must be in 0..59"
  | second => "second must be in 0..59"
  | offset minutes =>
      "offset must be a timedelta strictly between -timedelta(hours=24) and " ++
        "timedelta(hours=24), not " ++ duration minutes ++ "."

end ColorCensus.Yaml
