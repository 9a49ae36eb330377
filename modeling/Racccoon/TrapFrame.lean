import Mathlib.Logic.Function.Basic

/-! The registers of a process while the kernel handles its trap. -/

namespace Racccoon

abbrev Word := BitVec 64

/-- The registers in the order `kernel_entry` stores them. -/
abbrev TrapFrame := Fin 31 → Word

namespace TrapFrame

def ra : Fin 31 := 0
def tp : Fin 31 := 2
def a0 : Fin 31 := 10
def a1 : Fin 31 := 11
def a2 : Fin 31 := 12
def a3 : Fin 31 := 13
def a4 : Fin 31 := 14
def sp : Fin 31 := 30

/-- An `int` argument. -/
def int (word : Word) : Int := (word.setWidth 32).toInt

/-- A `uint` argument. -/
def uint (word : Word) : Nat := (word.setWidth 32).toNat

end TrapFrame

/-- The floating-point registers, then `fcsr`. -/
abbrev FpArea := Fin 33 → Word

end Racccoon
