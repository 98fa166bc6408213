import Goby.LexicalCasts

/-! A sentence is the list of its comma-separated fields. The first holds the talker and the
sentence id, and the constructor refuses any that does not have six characters. -/

namespace Goby

def comma : UInt8 := 0x2C

structure NmeaSentence where
  front : Bytes
  rest : List Bytes
  front_length : front.length = 6
  front_comma : comma ∉ front
deriving DecidableEq

namespace NmeaSentence

variable (nmea : NmeaSentence)

def fields : List Bytes := nmea.front :: nmea.rest

def size : ℕ := nmea.fields.length

/-- `at`: no field where it throws `std::out_of_range`. -/
def at? (i : ℕ) : Option Bytes := nmea.fields[i]?

def sentenceId : Bytes := nmea.front.drop 3

/-- The sentence read back from its own `message()`: a field that holds commas is split at them. -/
def reparsed : NmeaSentence :=
  { nmea with rest := nmea.rest.flatMap (List.splitOn comma) }

end NmeaSentence

end Goby
