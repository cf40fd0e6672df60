import Mathlib.Data.List.Basic
import Mathlib.Data.Rat.Floor

/-!
# YellowTree.Lua.Value — the Lua side of an argument list

Lua 5.2 strings, numbers and the values a command can pass to a Java method, and the length `#args` of the table
`{...}` that `jcallable_method:__call` builds from them.  A Lua string is a sequence of bytes, one `Char` a byte.  A
Lua number is a double: a rational, an infinity or a NaN.
-/

namespace YellowTree

abbrev LuaString := List Char

/-- A Lua error: a message raised by `error`, `assert` or the interpreter, or a JVMTI error raised by
`lj_check_jvmti_error`. -/
inductive LuaError where
  | message (text : String)
  | jvmti (name : String)
  deriving DecidableEq

/-! ## Numbers -/

section Number

/-- A Lua 5.2 number: every finite double is a rational. -/
inductive LuaNumber where
  | finite (q : ℚ)
  | inf (negative : Bool)
  | nan
  deriving DecidableEq

instance (n : ℕ) : OfNat LuaNumber n := ⟨.finite n⟩

namespace LuaNumber

/-- `math.floor`: the infinities and NaN are their own floor. -/
def floor : LuaNumber → LuaNumber
  | .finite q => .finite ⌊q⌋
  | .inf b => .inf b
  | .nan => .nan

/-- `x == n` for an integer `n`. -/
def equals (x : LuaNumber) (n : ℕ) : Bool :=
  match x with
  | .finite q => q = n
  | _ => false

/-- `x < n` for an integer `n`; false of NaN. -/
def less (x : LuaNumber) (n : ℕ) : Bool :=
  match x with
  | .finite q => q < n
  | .inf negative => negative
  | .nan => false

/-- The place in a list, counted from 0, of the element that `t[x]` names in Lua. -/
def index? : LuaNumber → Option ℕ
  | .finite q => if q.den = 1 ∧ 1 ≤ q.num then some (q.num.toNat - 1) else none
  | _ => none

/-- The double nearest to an integer, ties to even. -/
def roundDouble (n : ℤ) : ℤ :=
  let a := n.natAbs
  if a < 2 ^ 53 then n
  else
    let e := a.log2 - 52
    let m := a / 2 ^ e
    let half := 2 ^ (e - 1)
    let m' := if half < a % 2 ^ e ∨ (a % 2 ^ e = half ∧ m % 2 = 1) then m + 1 else m
    n.sign * (m' * 2 ^ e : ℕ)

/-- `lua_pushinteger`. -/
def ofInteger (n : ℤ) : LuaNumber := .finite (roundDouble n)

theorem roundDouble_of_lt {n : ℤ} (h : n.natAbs < 2 ^ 53) : roundDouble n = n := if_pos h

end LuaNumber

/-- The conversion of a double to `lua_Integer` that `luaL_checkinteger` makes: C truncates towards zero and leaves
the result open when it is no 64-bit integer. -/
structure IntegerCast where
  cast : LuaNumber → ℤ
  cast_eq : ∀ q : ℚ, -2 ^ 63 ≤ q → q < 2 ^ 63 → cast (.finite q) = if 0 ≤ q then ⌊q⌋ else ⌈q⌉

theorem IntegerCast.cast_int (c : IntegerCast) {n : ℤ} (h : -2 ^ 63 ≤ n) (h' : n < 2 ^ 63) :
    c.cast (.finite n) = n := by
  rw [c.cast_eq n (by exact_mod_cast h) (by exact_mod_cast h')]
  simp

/-- On x86-64 the result is then the least 64-bit integer. -/
def IntegerCast.x86 : IntegerCast where
  cast
    | .finite q => if -2 ^ 63 ≤ q ∧ q < 2 ^ 63 then (if 0 ≤ q then ⌊q⌋ else ⌈q⌉) else -2 ^ 63
    | _ => -2 ^ 63
  cast_eq _ h h' := if_pos ⟨h, h'⟩

end Number

/-! ## Values -/

section Value

/-- The values of an argument list.  `Class` and `Ref` are the Java classes and the raw object references.  A table
is `JavaNull`, a bridge object (`jobject`, `jclass`, `jarray` or `jthread`: it has `object_raw` and `class`), or a
table with no `object_raw`. -/
inductive Value (Class Ref : Type) where
  | nil
  | boolean (b : Bool)
  | number (n : LuaNumber)
  | string (s : LuaString)
  | javaNull
  | object (raw : Ref) (cls : Class)
  | table (id : ℕ)
  | function (id : ℕ)
  | userdata (id : ℕ)
  deriving DecidableEq

variable {Class Ref : Type}

def Value.isNil : Value Class Ref → Bool
  | .nil => true
  | _ => false

/-- The binary search of `luaH_getn`: `i` is a non-nil index (or 0), `j` the index of a nil. -/
def border (args : List (Value Class Ref)) : ℕ → ℕ → ℕ → ℕ
  | 0, i, _ => i
  | fuel + 1, i, j =>
    if j - i ≤ 1 then i
    else
      let m := (i + j) / 2
      if (args[m - 1]?.getD .nil).isNil then border args fuel i m else border args fuel m j

/-- `#args` for `args = {...}`: the table has exactly one array slot for each argument, so the length is the number
of arguments when the last one is not nil, and the border the binary search finds otherwise. -/
def luaLen (args : List (Value Class Ref)) : ℕ :=
  if (args.getLast?.getD .nil).isNil then border args args.length 0 args.length else args.length

theorem border_le (args : List (Value Class Ref)) :
    ∀ (fuel i j : ℕ), i ≤ args.length → j ≤ args.length → border args fuel i j ≤ args.length
  | 0, _, _, hi, _ => hi
  | fuel + 1, i, j, hi, hj => by
    unfold border
    dsimp only
    split_ifs with h1 h2
    · exact hi
    · exact border_le args fuel i _ hi (by omega)
    · exact border_le args fuel _ j (by omega) hj

theorem luaLen_le (args : List (Value Class Ref)) : luaLen args ≤ args.length := by
  unfold luaLen
  split_ifs
  · exact border_le args _ 0 _ (Nat.zero_le _) le_rfl
  · exact le_rfl

end Value

end YellowTree
