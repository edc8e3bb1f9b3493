import Mathlib.Algebra.Order.Ring.Int
import Bmv2.Lib.PythonInt

/-! Parameters on the command line, from `runtime_CLI.py`: a number, or an address for the widths
of addresses. -/
namespace Bmv2
open PythonInt

/-- What is raised on the way. Only `UIn_BadParamError` leaves `parse_param`. -/
inductive CliError where
  | formatExplore
  | badIPv4
  | badIPv6
  | badMac
  | badParam (info : String)
  deriving DecidableEq

def ipv4AddrToBytes (addr : List Char) : Except CliError (List ℤ) :=
  if '.' ∉ addr then .error .formatExplore
  else if (addr.splitOn '.').length ≠ 4 then .error .badIPv4
  else
    match (addr.splitOn '.').mapM fun b => int b 10 with
    | some bytes => .ok bytes
    | none => .error .badIPv4

def macAddrToBytes (addr : List Char) : Except CliError (List ℤ) :=
  if ':' ∉ addr then .error .formatExplore
  else if (addr.splitOn ':').length ≠ 6 then .error .badMac
  else
    match (addr.splitOn ':').mapM fun b => int b 16 with
    | some bytes => .ok bytes
    | none => .error .badMac

/-- `packed` is what the `ipaddr` package makes of an address. -/
def ipv6AddrToBytes (packed : List Char → Option (List ℤ)) (addr : List Char) :
    Except CliError (List ℤ) :=
  if ':' ∉ addr then .error .formatExplore
  else
    match packed addr with
    | some bytes => .ok bytes
    | none => .error .badIPv6

/-- The first loop of `int_to_bytes`: the bytes of a positive number, and how many may still
follow. -/
def splitBytes (i num : ℤ) (byteArray : List ℤ) : List ℤ × ℤ :=
  if 0 < i then splitBytes (i / 256) (num - 1) (byteArray ++ [i % 256]) else (byteArray, num)
termination_by i.toNat
decreasing_by omega

def intToBytes (i num : ℤ) : Except CliError (List ℤ) :=
  if (splitBytes i num []).2 < 0 then .error (.badParam "Parameter is too large")
  else .ok ((splitBytes i num []).1 ++ List.replicate (splitBytes i num []).2.toNat 0).reverse

/-- The end of `parse_param`, where the parameter is a number. -/
def parseNumber (input : List Char) (bitwidth : ℕ) : Except CliError (List ℤ) :=
  match int input 0 with
  | some i => intToBytes i ((bitwidth + 7) / 8 : ℕ)
  | none => .error (.badParam
      "Invalid input, could not cast to integer, try in hex with 0x prefix")

/-- Goes on with the number if the string does not look like an address. -/
def orNumber (input : List Char) (bitwidth : ℕ) (info : String) :
    Except CliError (List ℤ) → Except CliError (List ℤ)
  | .error .formatExplore => parseNumber input bitwidth
  | .error _ => .error (.badParam info)
  | .ok bytes => .ok bytes

def parseParam (packed : List Char → Option (List ℤ)) (input : List Char) (bitwidth : ℕ) :
    Except CliError (List ℤ) :=
  if bitwidth = 32 then
    orNumber input bitwidth "Invalid IPv4 address" (ipv4AddrToBytes input)
  else if bitwidth = 48 then
    orNumber input bitwidth "Invalid MAC address" (macAddrToBytes input)
  else if bitwidth = 128 then
    orNumber input bitwidth "Invalid IPv6 address" (ipv6AddrToBytes packed input)
  else parseNumber input bitwidth

end Bmv2
