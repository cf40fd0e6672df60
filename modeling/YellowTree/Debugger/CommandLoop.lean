import YellowTree.Lib.ApiStack
import YellowTree.Lua.Value

/-!
# YellowTree.Debugger.CommandLoop — the loop of `lua_start_cmd`

`lua_start_cmd` keeps the C function `traceback` on its stack as the message handler, and calls `start_cmd` for no
results.  What it then tests as the result of `start_cmd` is the element with index 1, which is `traceback`.

* `cmdRound_eq`: whatever `start_cmd` does, the loop is left with the stack it began with.
* `restarts_iff`: the loop restarts `start_cmd` as it should exactly when this never happens.
-/

namespace YellowTree

variable {Class Ref : Type}

/-! ## The embedding -/

section Embedding

/-- `lua_toboolean`, with none for an index that is not valid. -/
def toBoolean : Option (Value Class Ref) → Bool
  | none => false
  | some .nil => false
  | some (.boolean b) => b
  | some _ => true

/-- The function `traceback`, the globals `setopts` and `start_cmd`, and what a message handler makes of an error. -/
structure CmdEnv (Class Ref : Type) where
  traceback : ℕ
  setopts : Value Class Ref
  startCmd : Value Class Ref
  handle : Value Class Ref → Value Class Ref → Value Class Ref

variable (env : CmdEnv Class Ref)

/-- `if (lua_pcall(L, nargs, 0, msgh))`: the message of an error is printed and dropped. -/
def pcallOrPrint (s : List (Value Class Ref)) (nargs : ℕ) (msgh : ℤ) (outcome : ApiStack.Outcome (Value Class Ref)) :
    List (Value Class Ref) :=
  let called := ApiStack.pcall .nil env.handle s nargs 0 msgh outcome
  if called.2 then ApiStack.pop called.1 1 else called.1

/-- The stack in front of the loop: `setopts` is called with the options. -/
def loopStack (opts : LuaString) (setopts : ApiStack.Outcome (Value Class Ref)) : List (Value Class Ref) :=
  ApiStack.push (pcallOrPrint env (ApiStack.push (ApiStack.push [] env.setopts) (.string opts)) 1 0 setopts)
    (.function env.traceback)

/-- One round of `while (1)`; `true` is `break`. -/
def cmdRound (s : List (Value Class Ref)) (outcome : ApiStack.Outcome (Value Class Ref)) :
    List (Value Class Ref) × Bool :=
  let s := pcallOrPrint env (ApiStack.push s env.startCmd) 0 (-2) outcome
  (s, if ApiStack.gettop s = 1 then toBoolean (ApiStack.index s 1) else false)

/-- The stack at the start of a round of `lua_start_cmd`, if the round is reached, where the calls of `start_cmd` end
in the given way. -/
def luaStartCmd (opts : LuaString) (setopts : ApiStack.Outcome (Value Class Ref))
    (outcomes : ℕ → ApiStack.Outcome (Value Class Ref)) : ℕ → Option (List (Value Class Ref)) :=
  ApiStack.startOf (cmdRound env) (loopStack env opts setopts) outcomes

end Embedding

/-! ## Restarting -/

section Spec

/-- `start_cmd` returns, and its first value is `true`. -/
def ReturnsTrue (outcome : ApiStack.Outcome (Value Class Ref)) : Prop :=
  ∃ vs, outcome = .returned (.boolean true :: vs)

/-- A call is made exactly when no earlier one returned true, and always at the same height of the stack. -/
structure Restarts (env : CmdEnv Class Ref) (opts : LuaString) (setopts : ApiStack.Outcome (Value Class Ref))
    (outcomes : ℕ → ApiStack.Outcome (Value Class Ref)) : Prop where
  calls : ∀ n, (luaStartCmd env opts setopts outcomes n).isSome = true ↔ ∀ j < n, ¬ ReturnsTrue (outcomes j)
  height : ∀ m n s t, luaStartCmd env opts setopts outcomes m = some s →
    luaStartCmd env opts setopts outcomes n = some t → ApiStack.gettop s = ApiStack.gettop t

variable {env : CmdEnv Class Ref} {opts : LuaString} {setopts : ApiStack.Outcome (Value Class Ref)}
  {outcomes : ℕ → ApiStack.Outcome (Value Class Ref)}

/-- A call leaves what was under the function. -/
theorem pcallOrPrint_eq (args : List (Value Class Ref)) (f : Value Class Ref) (s : List (Value Class Ref)) (msgh : ℤ)
    (outcome : ApiStack.Outcome (Value Class Ref)) :
    pcallOrPrint env (args ++ f :: s) args.length msgh outcome = s := by
  obtain ⟨top, htop, hlen⟩ := ApiStack.pcall_eq .nil env.handle args f s 0 msgh outcome
  show (if (ApiStack.pcall .nil env.handle (args ++ f :: s) args.length 0 msgh outcome).2 then
    ApiStack.pop (ApiStack.pcall .nil env.handle (args ++ f :: s) args.length 0 msgh outcome).1 1 else _) = s
  rw [htop]
  split_ifs at hlen ⊢ with hfailed
  · show (top ++ s).drop 1 = s
    rw [← hlen, List.drop_left]
  · rw [List.length_eq_zero_iff.mp hlen]
    rfl

/-- The loop starts with the message handler alone. -/
theorem loopStack_eq : loopStack env opts setopts = [.function env.traceback] := by
  have hempty : pcallOrPrint env (ApiStack.push (ApiStack.push [] env.setopts) (.string opts)) 1 0 setopts = [] :=
    pcallOrPrint_eq [.string opts] env.setopts [] 0 setopts
  unfold loopStack
  rw [hempty]
  rfl

/-- Every round ends as it began, and leaves the loop: the element with index 1 is the message handler. -/
theorem cmdRound_eq (outcome : ApiStack.Outcome (Value Class Ref)) :
    cmdRound env [.function env.traceback] outcome = ([.function env.traceback], true) := by
  have hstack : pcallOrPrint env (ApiStack.push [.function env.traceback] env.startCmd) 0 (-2) outcome =
      [.function env.traceback] := pcallOrPrint_eq [] env.startCmd _ (-2) outcome
  unfold cmdRound
  rw [hstack]
  rfl

/-- **The command interpreter restarts after failures and stops only on request** exactly when its first call returns
true. -/
theorem restarts_iff (env : CmdEnv Class Ref) (opts : LuaString) (setopts : ApiStack.Outcome (Value Class Ref))
    (outcomes : ℕ → ApiStack.Outcome (Value Class Ref)) :
    Restarts env opts setopts outcomes ↔ ReturnsTrue (outcomes 0) := by
  have hround : ∀ s o, s = [.function env.traceback] → (cmdRound env s o).2 = true := by
    rintro s o rfl
    rw [cmdRound_eq]
  have hkeep : ∀ s o, s = [.function env.traceback] → (cmdRound env s o).2 = false →
      (cmdRound env s o).1 = [.function env.traceback] := by
    rintro s o rfl -
    rw [cmdRound_eq]
  have hcalls : ∀ n, (luaStartCmd env opts setopts outcomes n).isSome = true ↔ ∀ j < n, true = false := fun n =>
    ApiStack.isSome_startOf_iff (· = [.function env.traceback]) (fun _ => true) loopStack_eq hkeep hround n
  constructor
  · intro h
    by_contra hno
    have hfirst : ∀ j < 1, ¬ ReturnsTrue (outcomes j) := by
      intro j hj
      obtain rfl : j = 0 := by omega
      exact hno
    cases (hcalls 1).mp ((h.calls 1).mpr hfirst) 0 (by omega)
  · intro h
    refine ⟨fun n => ?_, fun m n s t hs ht => ?_⟩
    · rw [hcalls]
      constructor
      · intro hall j hj
        cases hall j hj
      · intro hall j hj
        exact absurd h (hall 0 (by omega))
    · rw [ApiStack.startOf_inv (· = [.function env.traceback]) loopStack_eq hkeep m s hs,
        ApiStack.startOf_inv (· = [.function env.traceback]) loopStack_eq hkeep n t ht]

/-- A program without a debugger: `start_cmd` is nil. -/
def noCmd : CmdEnv Unit Unit := ⟨0, .nil, .nil, fun _ e => e⟩

/-- Nothing is called after an error. -/
theorem error_not_restarts :
    ¬ Restarts noCmd [] (.returned []) fun _ => .error (.string "attempt to call a nil value".toList) := by
  intro h
  obtain ⟨s, hs⟩ := Option.isSome_iff_exists.mp ((h.calls 1).mpr (by rintro j - ⟨vs, hvs⟩; cases hvs))
  cases hs

end Spec

end YellowTree
