import YellowTree.Lib.Transition
import YellowTree.Lua.Value

/-!
# YellowTree.Telescope.Environments — `setfenv` and `getfenv` for Lua 5.2

In Lua 5.1 each function has an environment of its own, which a function takes from the one that creates it.  In Lua
5.2 the environment is the upvalue `_ENV`, a cell that a function shares with those around it, and a function
expression may give a function again that has the same upvalues.  `compat_env` gives a function a cell of its own
before it sets it.

* `envlookupLoop_cases`: the first upvalue of the name `_ENV` is found.
* `environments_agree`: after any sequence of chunks loaded, functions created and calls of `setfenv`, none of them on a
  function that was given twice, the environment of each function is the one that it has in Lua 5.1.
-/

namespace YellowTree

namespace Telescope

open Transition

variable {Env : Type}

/-! ## Functions and cells -/

section Model

/-- What a cell holds. -/
inductive Content (Env : Type) where
  | env (e : Env)
  | other

/-- An upvalue of a function; `debug.getupvalue` gives the name. -/
structure Upvalue where
  name : LuaString
  cell : ℕ

/-- `debug.getinfo(f, 'S').what`. -/
inductive What where
  | lua | main | c
  deriving DecidableEq

structure LuaFunction where
  what : What
  upvalues : List Upvalue

/-- All functions, and the cells of their upvalues. -/
structure Functions (Env : Type) where
  functions : List LuaFunction
  cells : List (Content Env)

def envName : LuaString := "_ENV".toList

/-- The loop of `envlookup`, with the upvalues behind `up`: the number of `_ENV`, and whether a name is unknown. -/
def envlookupLoop : List Upvalue → ℕ → Bool → Option ℕ × Bool
  | [], _, unknown => (none, unknown)
  | u :: us, up, unknown =>
    let unknown := unknown || u.name = []
    if u.name = envName then (some (up + 1), unknown) else envlookupLoop us (up + 1) unknown

def envlookup (f : LuaFunction) : Except LuaError (Option ℕ) :=
  match envlookupLoop f.upvalues 0 false with
  | (some up, _) => .ok (some up)
  | (none, true) => .error (.message "upvalues not readable in Lua 5.2 when debug info missing")
  | (none, false) => .ok none

/-- `debug.upvaluejoin(f, up, ..)`: the upvalue becomes the cell. -/
def LuaFunction.upvaluejoin (f : LuaFunction) (up cell : ℕ) : LuaFunction :=
  { f with upvalues := f.upvalues.modify (up - 1) fun u => { u with cell := cell } }

/-- `debug.setupvalue(f, up, ..)`: the cell of the upvalue is written. -/
def setupvalue (cells : List (Content Env)) (f : LuaFunction) (up : ℕ) (value : Content Env) : List (Content Env) :=
  match f.upvalues[up - 1]? with
  | some u => cells.set u.cell value
  | none => cells

/-- `type(name, f)` is the type of the name. -/
def notAFunction : LuaError := .message "bad argument #1 to 'setfenv' (number expected, got string)"

/-- `setfenv`; the function that is joined to has the local `up` as its upvalue, a new cell. -/
def setfenv (s : Functions Env) (f : ℕ) (t : Env) : Except LuaError (Functions Env) :=
  match s.functions[f]? with
  | none => .error notAFunction
  | some func =>
    match envlookup func with
    | .error e => .error e
    | .ok (some up) =>
      let joined := func.upvaluejoin up s.cells.length
      .ok ⟨s.functions.modify f fun _ => joined, setupvalue (s.cells ++ [.other]) joined up (.env t)⟩
    | .ok none =>
      if func.what = .c then .error (.message "'setfenv' cannot change environment of given object") else .ok s

/-- `getfenv`. -/
def getfenv (globals : Env) (s : Functions Env) (f : ℕ) : Except LuaError (Content Env) :=
  match s.functions[f]? with
  | none => .error notAFunction
  | some func =>
    match envlookup func with
    | .error e => .error e
    | .ok none => .ok (.env globals)
    | .ok (some up) =>
      match func.upvalues[up - 1]? with
      | some u => .ok (s.cells[u.cell]?.getD .other)
      | none => .ok .other

/-- What a program does: it loads a chunk, creates a function, with the names of its upvalues and which upvalue of the
creator each is (a local of the creator otherwise), has a C function with unnamed upvalues, or sets an environment.
`reused` is the function that Lua 5.2 gives instead of a new one.  Functions are numbered as the program gets them. -/
inductive EnvEvent (Env : Type) where
  | load
  | closure (parent : ℕ) (upvalues : List (LuaString × Option ℕ)) (reused : Option ℕ)
  | cFunction (upvalues : ℕ)
  | setfenv (f : ℕ) (t : Env)

/-- The upvalues of a new function, from those of its creator; a local has a cell of its own.  `_ENV` is that of the
creator. -/
def captured (parent : List Upvalue) : List (LuaString × Option ℕ) → ℕ → Option (List Upvalue × ℕ)
  | [], next => some ([], next)
  | (name, some i) :: rest, next =>
    match parent[i]? with
    | some u => if u.name = name ∧ name ≠ [] ∧ (name = envName → envlookupLoop parent 0 false = (some (i + 1), false))
      then (captured parent rest next).map fun r => (⟨name, u.cell⟩ :: r.1, r.2) else none
    | none => none
  | (name, none) :: rest, next =>
    if name ≠ [] ∧ name ≠ envName then (captured parent rest (next + 1)).map fun r => (⟨name, next⟩ :: r.1, r.2)
    else none

/-- A function with the upvalues `vs` does for one with `us`: the upvalues of the creator, with cells below `n`, are the
same. -/
def sameUpvalues (n : ℕ) : List Upvalue → List Upvalue → Bool
  | [], [] => true
  | u :: us, v :: vs => u.name = v.name && (n ≤ u.cell || u.cell = v.cell) && sameUpvalues n us vs
  | _, _ => false

/-- The functions of Lua 5.2, and which of them each function is that the program has got. -/
structure Lua52State (Env : Type) where
  store : Functions Env
  values : List ℕ

namespace Lua52State

def function (s : Lua52State Env) (i : ℕ) : Option LuaFunction := s.values[i]?.bind (s.store.functions[·]?)

/-- A new function, and new cells. -/
def give (s : Lua52State Env) (f : LuaFunction) (new : List (Content Env)) : Lua52State Env :=
  ⟨⟨s.store.functions ++ [f], s.store.cells ++ new⟩, s.values ++ [s.store.functions.length]⟩

end Lua52State

/-- One event in Lua 5.2; an error changes nothing. -/
def lua52Step (globals : Env) (s : Lua52State Env) : EnvEvent Env → Option (Lua52State Env)
  | .load => some (s.give ⟨.main, [⟨envName, s.store.cells.length⟩]⟩ [.env globals])
  | .closure parent upvalues reused =>
    (s.function parent).bind fun p =>
      if p.what = .c then none
      else (captured p.upvalues upvalues s.store.cells.length).bind fun r =>
        match reused with
        | none => some (s.give ⟨.lua, r.1⟩ (List.replicate (r.2 - s.store.cells.length) .other))
        | some i =>
          match s.values[i]?, s.function i with
          | some j, some f =>
            if f.what = .lua ∧ sameUpvalues s.store.cells.length r.1 f.upvalues = true then
              some { s with values := s.values ++ [j] }
            else none
          | _, _ => none
  | .cFunction n => some (s.give ⟨.c, List.replicate n ⟨[], s.store.cells.length⟩⟩ [.other])
  | .setfenv f t =>
    match s.values[f]? with
    | none => some s
    | some j =>
      match setfenv s.store j t with
      | .ok store => some { s with store := store }
      | .error _ => some s

/-- A function in Lua 5.1. -/
structure Lua51Function (Env : Type) where
  isC : Bool
  env : Env

/-- One event in Lua 5.1. -/
def lua51Step (globals : Env) (a : List (Lua51Function Env)) : EnvEvent Env → Option (List (Lua51Function Env))
  | .load => some (a ++ [⟨false, globals⟩])
  | .closure parent _ _ =>
    match a[parent]? with
    | some p => if p.isC then none else some (a ++ [⟨false, p.env⟩])
    | none => none
  | .cFunction _ => some (a ++ [⟨true, globals⟩])
  | .setfenv f t => some (a.modify f fun g => if g.isC then g else { g with env := t })

/-- Both, on the same events. -/
def bothStep (globals : Env) (s : Lua52State Env × List (Lua51Function Env)) (e : EnvEvent Env) :
    Option (Lua52State Env × List (Lua51Function Env)) :=
  (lua52Step globals s.1 e).bind fun t => (lua51Step globals s.2 e).map fun a => (t, a)

/-- No environment is set of a function that was given twice. -/
def SetsUnshared (s : Lua52State Env × List (Lua51Function Env)) (e : EnvEvent Env)
    (_ : Lua52State Env × List (Lua51Function Env)) : Prop :=
  ∀ f t, e = .setfenv f t → ∀ i j, s.1.values[f]? = some j → s.1.values[i]? = some j → i = f

end Model

/-! ## Finding `_ENV` -/

section Lookup

/-- The cell of the upvalue `_ENV`. -/
def envCell : List Upvalue → Option ℕ
  | [] => none
  | u :: us => if u.name = envName then some u.cell else envCell us

/-- The upvalues that a function is given again for have the same `_ENV`. -/
theorem envCell_of_sameUpvalues {n : ℕ} {us vs : List Upvalue} (h : sameUpvalues n us vs = true)
    (hlt : ∀ c, envCell us = some c → c < n) : envCell vs = envCell us := by
  induction us generalizing vs with
  | nil =>
    cases vs with
    | nil => rfl
    | cons v vs => cases h
  | cons u us ih =>
    cases vs with
    | nil => cases h
    | cons v vs =>
      rw [sameUpvalues, Bool.and_eq_true, Bool.and_eq_true] at h
      obtain ⟨⟨hname, hcell⟩, hrest⟩ := h
      have hname := of_decide_eq_true hname
      rw [envCell] at hlt
      rw [envCell, envCell, ← hname]
      by_cases hu : u.name = envName
      · rw [if_pos hu] at hlt ⊢
        rw [if_pos hu]
        rw [Bool.or_eq_true, decide_eq_true_eq, decide_eq_true_eq] at hcell
        rw [hcell.resolve_left (Nat.not_le.mpr (hlt u.cell rfl))]
      · rw [if_neg hu] at hlt ⊢
        rw [if_neg hu]
        exact ih hrest hlt

theorem exists_of_envCell {us : List Upvalue} {c : ℕ} (h : envCell us = some c) : ∃ u ∈ us, u.name = envName := by
  induction us with
  | nil => cases h
  | cons u us ih =>
    rw [envCell] at h
    split_ifs at h with hu
    · exact ⟨u, List.mem_cons_self, hu⟩
    · obtain ⟨v, hv, hname⟩ := ih h
      exact ⟨v, List.mem_cons_of_mem u hv, hname⟩

/-- What `envlookup` finds, counted from `k`, is the first upvalue of the name. -/
theorem envlookupLoop_cases (us : List Upvalue) (k : ℕ) (b : Bool) :
    (∃ j u, us[j]? = some u ∧ u.name = envName ∧ (envlookupLoop us k b).1 = some (k + j + 1) ∧
      envCell us = some u.cell ∧ ∀ c, envCell (us.modify j fun u => { u with cell := c }) = some c) ∨
    (envCell us = none ∧ envlookupLoop us k b = (none, b || us.any fun u => u.name = [])) := by
  induction us generalizing k b with
  | nil => exact Or.inr ⟨rfl, by rw [envlookupLoop, List.any_nil, Bool.or_false]⟩
  | cons u us ih =>
    rw [envlookupLoop]
    by_cases hu : u.name = envName
    · exact Or.inl ⟨0, u, rfl, hu, by rw [if_pos hu], if_pos hu, fun c => if_pos hu⟩
    · have hcell : ∀ us', envCell (u :: us') = envCell us' := fun us' => if_neg hu
      rw [if_neg hu]
      rcases ih (k + 1) (b || u.name = []) with ⟨j, v, hj, hname, hloop, henv, hmodify⟩ | ⟨hnone, hloop⟩
      · refine Or.inl ⟨j + 1, v, hj, hname, ?_, (hcell us).trans henv, fun c => ?_⟩
        · rw [hloop]
          congr 1
          omega
        · rw [List.modify_succ_cons, hcell]
          exact hmodify c
      · refine Or.inr ⟨(hcell us).trans hnone, ?_⟩
        rw [hloop, List.any_cons, Bool.or_assoc]

theorem envCell_of_envlookupLoop {us : List Upvalue} {i : ℕ} {u : Upvalue} {unknown : Bool} (hu : us[i]? = some u)
    (h : envlookupLoop us 0 false = (some (i + 1), unknown)) : envCell us = some u.cell := by
  rcases envlookupLoop_cases us 0 false with ⟨j, v, hj, -, hfound, hcell, -⟩ | ⟨-, hnone⟩
  · rw [h] at hfound
    have hij : i + 1 = 0 + j + 1 := Option.some.inj hfound
    obtain rfl : j = i := by omega
    obtain rfl := Option.some.inj (hu.symm.trans hj)
    exact hcell
  · rw [h] at hnone
    cases hnone

end Lookup

/-! ## Lua 5.2 and Lua 5.1 -/

section Agreement

/-- A function of Lua 5.2 and the one of Lua 5.1: the cell of its `_ENV` holds its environment. -/
structure FunctionAgrees (cells : List (Content Env)) (f : LuaFunction) (g : Lua51Function Env) : Prop where
  kind : f.what = .c ↔ g.isC = true
  cell : ∀ u ∈ f.upvalues, u.cell < cells.length
  named : ∀ u ∈ f.upvalues, u.name = [] ↔ f.what = .c
  env : ∀ c, envCell f.upvalues = some c → cells[c]? = some (.env g.env)

/-- All functions that the program has got agree. -/
structure Agrees (s : Lua52State Env × List (Lua51Function Env)) : Prop where
  length : s.1.values.length = s.2.length
  agrees : ∀ (i j : ℕ) (g : Lua51Function Env), s.1.values[i]? = some j → s.2[i]? = some g →
    ∃ f, s.1.store.functions[j]? = some f ∧ FunctionAgrees s.1.store.cells f g

theorem agrees_init : Agrees ((⟨⟨[], []⟩, []⟩, []) : Lua52State Env × List (Lua51Function Env)) :=
  ⟨rfl, fun _ _ _ h => by cases h⟩

variable {cells : List (Content Env)} {f : LuaFunction} {g : Lua51Function Env}

theorem FunctionAgrees.append (h : FunctionAgrees cells f g) (new : List (Content Env)) :
    FunctionAgrees (cells ++ new) f g where
  kind := h.kind
  cell u hu := by
    have := h.cell u hu
    rw [List.length_append]
    omega
  named := h.named
  env c hc := by
    have hget := h.env c hc
    rw [List.getElem?_append_left (List.getElem?_eq_some_iff.mp hget).1]
    exact hget

theorem mem_modify {α : Type} {l : List α} {j : ℕ} {f : α → α} {v : α} (h : v ∈ l.modify j f) :
    v ∈ l ∨ ∃ u, l[j]? = some u ∧ v = f u := by
  induction l generalizing j with
  | nil => rw [List.modify_nil] at h; exact Or.inl h
  | cons a l ih =>
    cases j with
    | zero =>
      rw [List.modify_zero_cons] at h
      rcases List.mem_cons.mp h with rfl | h
      · exact Or.inr ⟨a, rfl, rfl⟩
      · exact Or.inl (List.mem_cons_of_mem a h)
    | succ j =>
      rw [List.modify_succ_cons] at h
      rcases List.mem_cons.mp h with rfl | h
      · exact Or.inl List.mem_cons_self
      · exact (ih h).imp_left (List.mem_cons_of_mem a)

/-- What is captured are cells of the creator, `_ENV` its own, or new ones. -/
theorem captured_spec {parent : List Upvalue} {specs : List (LuaString × Option ℕ)} {next next' : ℕ}
    {us : List Upvalue} (hcell : ∀ u ∈ parent, u.cell < next) (h : captured parent specs next = some (us, next')) :
    next ≤ next' ∧ (∀ u ∈ us, u.cell < next' ∧ u.name ≠ []) ∧
      ∀ c, envCell us = some c → envCell parent = some c := by
  induction specs generalizing next us with
  | nil =>
    obtain ⟨rfl, rfl⟩ := Prod.mk.inj (Option.some.inj h)
    exact ⟨Nat.le_refl _, fun u hu => absurd hu List.not_mem_nil, fun c hc => by cases hc⟩
  | cons spec specs ih =>
    obtain ⟨name, source⟩ := spec
    cases source with
    | some i =>
      rw [captured] at h
      cases hparent : parent[i]? with
      | none => rw [hparent] at h; cases h
      | some u =>
        rw [hparent] at h
        dsimp only at h
        split_ifs at h with hlegal
        obtain ⟨⟨vs, n⟩, hrest, heq⟩ := Option.map_eq_some_iff.mp h
        obtain ⟨rfl, rfl⟩ := Prod.mk.inj heq
        obtain ⟨hle, hall, henv⟩ := ih hcell hrest
        have hlt := hcell u (List.mem_of_getElem? hparent)
        refine ⟨hle, List.forall_mem_cons.mpr ⟨⟨by dsimp only; omega, hlegal.2.1⟩, hall⟩, fun c hc => ?_⟩
        by_cases hname : name = envName
        · -- the upvalue that `envlookup` finds
          rw [envCell, if_pos hname] at hc
          obtain rfl : u.cell = c := Option.some.inj hc
          exact envCell_of_envlookupLoop hparent (hlegal.2.2 hname)
        · rw [envCell, if_neg hname] at hc
          exact henv c hc
    | none =>
      rw [captured] at h
      split_ifs at h with hlegal
      obtain ⟨⟨vs, n⟩, hrest, heq⟩ := Option.map_eq_some_iff.mp h
      obtain ⟨rfl, rfl⟩ := Prod.mk.inj heq
      obtain ⟨hle, hall, henv⟩ := ih (fun u hu => Nat.lt_succ_of_lt (hcell u hu)) hrest
      refine ⟨by omega, List.forall_mem_cons.mpr ⟨⟨by dsimp only; omega, hlegal.1⟩, hall⟩, fun c hc => ?_⟩
      rw [envCell, if_neg hlegal.2] at hc
      exact henv c hc

/-- `setfenv` on a function with an `_ENV`. -/
theorem FunctionAgrees.setfenv (h : FunctionAgrees cells f g) {j : ℕ} {u : Upvalue} (t : Env)
    (hj : f.upvalues[j]? = some u)
    (hmodify : ∀ c, envCell (f.upvalues.modify j fun u => { u with cell := c }) = some c) :
    setupvalue (cells ++ [.other]) (f.upvaluejoin (0 + j + 1) cells.length) (0 + j + 1) (.env t) = cells ++ [.env t] ∧
      FunctionAgrees (cells ++ [.env t]) (f.upvaluejoin (0 + j + 1) cells.length) { g with env := t } := by
  have hup : 0 + j + 1 - 1 = j := by omega
  have hjoined : (f.upvaluejoin (0 + j + 1) cells.length).upvalues =
      f.upvalues.modify j fun u => { u with cell := cells.length } := by
    rw [LuaFunction.upvaluejoin, hup]
  have hmem : ∀ v ∈ f.upvalues.modify j (fun u => { u with cell := cells.length }),
      (v.cell = cells.length ∧ v.name = u.name) ∨ v ∈ f.upvalues := by
    intro v hv
    rcases mem_modify hv with hv | ⟨w, hw, rfl⟩
    · exact Or.inr hv
    · obtain rfl := Option.some.inj (hj.symm.trans hw)
      exact Or.inl ⟨rfl, rfl⟩
  have hu := List.mem_of_getElem? hj
  constructor
  · rw [setupvalue, hjoined, hup, List.getElem?_modify_eq, hj]
    show (cells ++ [Content.other]).set cells.length _ = _
    rw [List.set_append_right _ _ (Nat.le_refl _), Nat.sub_self]
    rfl
  · refine ⟨h.kind, ?_, ?_, ?_⟩
    · rw [hjoined]
      intro v hv
      rw [List.length_append, List.length_singleton]
      rcases hmem v hv with ⟨hv, -⟩ | hv
      · omega
      · exact Nat.lt_succ_of_lt (h.cell v hv)
    · rw [hjoined]
      intro v hv
      rcases hmem v hv with ⟨-, hname⟩ | hv
      · rw [hname]
        exact h.named u hu
      · exact h.named v hv
    · rw [hjoined]
      intro c hc
      obtain rfl := Option.some.inj ((hmodify cells.length).symm.trans hc)
      exact List.getElem?_concat_length ..

theorem envlookup_of_found {up : ℕ} (hfound : (envlookupLoop f.upvalues 0 false).1 = some up) :
    envlookup f = .ok (some up) := by
  have hpair : envlookupLoop f.upvalues 0 false = (some up, (envlookupLoop f.upvalues 0 false).2) :=
    Prod.ext hfound rfl
  rw [envlookup, hpair]

theorem setfenv_of_found {s : Functions Env} {f up : ℕ} {func : LuaFunction} {t : Env}
    (hf : s.functions[f]? = some func) (hfound : (envlookupLoop func.upvalues 0 false).1 = some up) :
    setfenv s f t = .ok ⟨s.functions.modify f fun _ => func.upvaluejoin up s.cells.length,
      setupvalue (s.cells ++ [.other]) (func.upvaluejoin up s.cells.length) up (.env t)⟩ := by
  rw [setfenv, hf]
  dsimp only
  rw [envlookup_of_found hfound]

/-- Without an `_ENV` nothing is set. -/
theorem setfenv_of_none {s : Functions Env} {f : ℕ} {func : LuaFunction} {t : Env} {unknown : Bool}
    (hf : s.functions[f]? = some func) (hloop : envlookupLoop func.upvalues 0 false = (none, unknown)) :
    setfenv s f t = .ok s ∨ ∃ e, setfenv s f t = .error e := by
  rw [setfenv, hf]
  dsimp only
  rw [envlookup, hloop]
  cases unknown with
  | true => exact Or.inr ⟨_, rfl⟩
  | false =>
    dsimp only
    split_ifs
    · exact Or.inr ⟨_, rfl⟩
    · exact Or.inl rfl

theorem lua52Step_of_none {globals : Env} {s : Lua52State Env} {f j : ℕ} {func : LuaFunction} {t : Env}
    {unknown : Bool} (hj : s.values[f]? = some j) (hf : s.store.functions[j]? = some func)
    (hloop : envlookupLoop func.upvalues 0 false = (none, unknown)) :
    lua52Step globals s (.setfenv f t) = some s := by
  rw [lua52Step, hj]
  dsimp only
  rcases setfenv_of_none (t := t) hf hloop with hset | ⟨e, hset⟩
  · rw [hset]
  · rw [hset]

/-- One more element at the end. -/
theorem getElem?_concat_eq_some {α : Type} {l : List α} {a b : α} {i : ℕ} (h : (l ++ [a])[i]? = some b) :
    l[i]? = some b ∨ i = l.length ∧ a = b := by
  rcases Nat.lt_trichotomy i l.length with hi | rfl | hi
  · rw [List.getElem?_append_left hi] at h
    exact Or.inl h
  · rw [List.getElem?_concat_length] at h
    exact Or.inr ⟨rfl, Option.some.inj h⟩
  · rw [List.getElem?_eq_none_iff.mpr (by rw [List.length_append, List.length_singleton]; omega)] at h
    cases h

section Events

variable {s s' : Lua52State Env × List (Lua51Function Env)}

theorem Agrees.exists_function (h : Agrees s) {i : ℕ} {p : LuaFunction} (hp : s.1.function i = some p) :
    ∃ g, s.2[i]? = some g ∧ FunctionAgrees s.1.store.cells p g := by
  obtain ⟨j, hj, hfn⟩ := Option.bind_eq_some_iff.mp hp
  have hi : i < s.2.length := h.length ▸ (List.getElem?_eq_some_iff.mp hj).1
  obtain ⟨f, hf, hagrees⟩ := h.agrees i j _ hj (List.getElem?_eq_getElem hi)
  obtain rfl := Option.some.inj (hfn.symm.trans hf)
  exact ⟨_, List.getElem?_eq_getElem hi, hagrees⟩

/-- A new function that agrees. -/
theorem Agrees.give (h : Agrees s) {new : List (Content Env)} (hfg : FunctionAgrees (s.1.store.cells ++ new) f g) :
    Agrees (s.1.give f new, s.2 ++ [g]) where
  length := by
    show (s.1.values ++ [_]).length = _
    rw [List.length_append, List.length_append, h.length]
    rfl
  agrees := by
    intro i j k hi hk
    rcases getElem?_concat_eq_some hi with hi | ⟨rfl, rfl⟩
    · rcases getElem?_concat_eq_some hk with hk | ⟨rfl, rfl⟩
      · obtain ⟨f', hf', hagrees⟩ := h.agrees i j k hi hk
        refine ⟨f', ?_, hagrees.append new⟩
        show (s.1.store.functions ++ [f])[j]? = _
        rw [List.getElem?_append_left (List.getElem?_eq_some_iff.mp hf').1]
        exact hf'
      · have hlt := (List.getElem?_eq_some_iff.mp hi).1
        rw [h.length] at hlt
        exact absurd hlt (Nat.lt_irrefl _)
    · rw [h.length, List.getElem?_concat_length] at hk
      obtain rfl := Option.some.inj hk
      exact ⟨f, List.getElem?_concat_length, hfg⟩

/-- A function that is given again and agrees. -/
theorem Agrees.giveAgain (h : Agrees s) {j : ℕ} (hf : s.1.store.functions[j]? = some f)
    (hfg : FunctionAgrees s.1.store.cells f g) : Agrees ({ s.1 with values := s.1.values ++ [j] }, s.2 ++ [g]) where
  length := by
    rw [List.length_append, List.length_append, h.length]
    rfl
  agrees := by
    intro i k g' hi hg'
    rcases getElem?_concat_eq_some hi with hi | ⟨rfl, rfl⟩
    · rcases getElem?_concat_eq_some hg' with hg' | ⟨rfl, rfl⟩
      · exact h.agrees i k g' hi hg'
      · have hlt := (List.getElem?_eq_some_iff.mp hi).1
        rw [h.length] at hlt
        exact absurd hlt (Nat.lt_irrefl _)
    · rw [h.length, List.getElem?_concat_length] at hg'
      obtain rfl := Option.some.inj hg'
      exact ⟨f, hf, hfg⟩

/-- A function of Lua that is created has the environment of its creator. -/
theorem Agrees.closure {globals : Env} (h : Agrees s) {parent : ℕ} {upvalues : List (LuaString × Option ℕ)}
    {reused : Option ℕ} (hstep : bothStep globals s (.closure parent upvalues reused) = some s') : Agrees s' := by
  obtain ⟨t, ht, hstep⟩ := Option.bind_eq_some_iff.mp hstep
  obtain ⟨a, ha, rfl⟩ := Option.map_eq_some_iff.mp hstep
  obtain ⟨p, hp, ht⟩ := Option.bind_eq_some_iff.mp ht
  obtain ⟨g, hg, hagrees⟩ := h.exists_function hp
  rw [lua51Step, hg] at ha
  dsimp only at ha
  split_ifs at ha with hisC
  obtain rfl := Option.some.inj ha
  rw [Option.ite_none_left_eq_some] at ht
  obtain ⟨⟨us, next⟩, hus, ht⟩ := Option.bind_eq_some_iff.mp ht.2
  obtain ⟨hle, hall, henv⟩ := captured_spec hagrees.cell hus
  cases reused with
  | none =>
    obtain rfl := Option.some.inj ht
    refine h.give ⟨by simp, fun u hu => ?_, fun u hu => ?_, fun c hc => ?_⟩
    · have := (hall u hu).1
      rw [List.length_append, List.length_replicate]
      omega
    · exact iff_of_false (hall u hu).2 (by simp)
    · have hget := hagrees.env c (henv c hc)
      rw [List.getElem?_append_left (List.getElem?_eq_some_iff.mp hget).1]
      exact hget
  | some i =>
    dsimp only at ht
    split at ht
    · next j f hj hf =>
      rw [Option.ite_none_right_eq_some] at ht
      obtain ⟨⟨hlua, hsame⟩, ht⟩ := ht
      obtain rfl := Option.some.inj ht
      obtain ⟨g', -, hfg⟩ := h.exists_function hf
      have hfn : s.1.store.functions[j]? = some f := by
        rw [Lua52State.function, hj] at hf
        exact hf
      refine h.giveAgain hfn ⟨by simp [hlua], hfg.cell, hfg.named, fun c hc => ?_⟩
      -- its `_ENV` is that of the creator
      rw [envCell_of_sameUpvalues hsame fun c hc =>
        (List.getElem?_eq_some_iff.mp (hagrees.env c (henv c hc))).1] at hc
      exact hagrees.env c (henv c hc)
    · cases ht

/-- A function that no other number stands for gets new cells, and the one of Lua 5.1 changes, too. -/
theorem Agrees.modify (h : Agrees s) {i j : ℕ} {store : Functions Env} {φ : Lua51Function Env → Lua51Function Env}
    (hj : s.1.values[i]? = some j) (honly : ∀ k, s.1.values[k]? = some j → k = i)
    (hself : ∀ f g, s.1.store.functions[j]? = some f → FunctionAgrees s.1.store.cells f g →
      ∃ f', store.functions[j]? = some f' ∧ FunctionAgrees store.cells f' (φ g))
    (hother : ∀ l f g, l ≠ j → s.1.store.functions[l]? = some f → FunctionAgrees s.1.store.cells f g →
      store.functions[l]? = some f ∧ FunctionAgrees store.cells f g) :
    Agrees ({ s.1 with store := store }, s.2.modify i φ) where
  length := h.length.trans (List.length_modify _ _ _).symm
  agrees := by
    intro k l g hk hg
    by_cases hki : k = i
    · subst hki
      obtain rfl := Option.some.inj (hj.symm.trans hk)
      rw [List.getElem?_modify_eq] at hg
      obtain ⟨g', hg', rfl⟩ := Option.map_eq_some_iff.mp hg
      obtain ⟨f, hf, hfg⟩ := h.agrees k j g' hk hg'
      exact hself f g' hf hfg
    · rw [List.getElem?_modify_ne _ _ (Ne.symm hki)] at hg
      obtain ⟨f, hf, hfg⟩ := h.agrees k l g hk hg
      exact ⟨f, hother l f g (fun hlj => hki (honly k (hlj ▸ hk))) hf hfg⟩

/-- An environment that is set of a function given once. -/
theorem Agrees.setfenv {globals : Env} (h : Agrees s) {f : ℕ} {t : Env} (hC : SetsUnshared s (.setfenv f t) s')
    (hstep : bothStep globals s (.setfenv f t) = some s') : Agrees s' := by
  obtain ⟨u, hu, hstep⟩ := Option.bind_eq_some_iff.mp hstep
  obtain ⟨a, ha, rfl⟩ := Option.map_eq_some_iff.mp hstep
  obtain rfl := Option.some.inj ha
  rw [lua52Step] at hu
  cases hj : s.1.values[f]? with
  | none =>
    rw [hj] at hu
    obtain rfl := Option.some.inj hu
    rw [List.modify_eq_self (h.length ▸ List.getElem?_eq_none_iff.mp hj)]
    exact h
  | some j =>
    rw [hj] at hu
    dsimp only at hu
    have honly : ∀ k, s.1.values[k]? = some j → k = f := fun k => hC f t rfl k j hj
    have hf : f < s.2.length := h.length ▸ (List.getElem?_eq_some_iff.mp hj).1
    obtain ⟨func, hfunc, -⟩ := h.agrees f j _ hj (List.getElem?_eq_getElem hf)
    rcases envlookupLoop_cases func.upvalues 0 false with ⟨k, v, hk, hname, hfound, -, hmodify⟩ | ⟨hnone, hloop⟩
    · rw [setfenv_of_found hfunc hfound] at hu
      obtain rfl := Option.some.inj hu
      refine h.modify hj honly (fun f' g hf' hfg => ?_) fun l f' g hl hf' hfg => ?_
      · obtain rfl := Option.some.inj (hfunc.symm.trans hf')
        obtain ⟨hcells, hset⟩ := hfg.setfenv t hk hmodify
        have hlua : ¬ g.isC = true := by
          rw [← hfg.kind, ← hfg.named v (List.mem_of_getElem? hk), hname]
          decide
        dsimp only
        rw [hcells, if_neg hlua, List.getElem?_modify_eq, hfunc]
        exact ⟨_, rfl, hset⟩
      · dsimp only
        obtain ⟨g', -, hfg'⟩ := h.exists_function (show s.1.function f = some func by
          rw [Lua52State.function, hj]
          exact hfunc)
        rw [(hfg'.setfenv t hk hmodify).1, List.getElem?_modify_ne _ _ (Ne.symm hl)]
        exact ⟨hf', hfg.append _⟩
    · have hsame : lua52Step globals s.1 (.setfenv f t) = some s.1 := lua52Step_of_none hj hfunc hloop
      rw [lua52Step, hj] at hsame
      obtain rfl := Option.some.inj (hsame.symm.trans hu)
      refine h.modify hj honly (fun f' g hf' hfg => ⟨f', hf', ?_⟩) fun _ f' g _ hf' hfg => ⟨hf', hfg⟩
      obtain rfl := Option.some.inj (hfunc.symm.trans hf')
      split_ifs
      · exact hfg
      · exact ⟨hfg.kind, hfg.cell, hfg.named, fun c hc => absurd (hnone.symm.trans hc) (by simp)⟩

/-- An event keeps the agreement. -/
theorem agrees_step {globals : Env} {e : EnvEvent Env} (h : Agrees s) (hC : SetsUnshared s e s')
    (hstep : bothStep globals s e = some s') : Agrees s' := by
  cases e with
  | load =>
    obtain rfl := Option.some.inj hstep
    refine h.give ⟨by simp, fun u hu => ?_, fun u hu => ?_, fun c hc => ?_⟩
    · obtain rfl := List.mem_singleton.mp hu
      rw [List.length_append, List.length_singleton]
      exact Nat.lt_succ_self _
    · obtain rfl := List.mem_singleton.mp hu
      simp [envName]
    · obtain rfl : s.1.store.cells.length = c := Option.some.inj hc
      exact List.getElem?_concat_length
  | cFunction n =>
    obtain rfl := Option.some.inj hstep
    have hname : ∀ u ∈ List.replicate n (⟨[], s.1.store.cells.length⟩ : Upvalue), u = ⟨[], s.1.store.cells.length⟩ :=
      fun u hu => List.eq_of_mem_replicate hu
    refine h.give ⟨by simp, fun u hu => ?_, fun u hu => ?_, fun c hc => ?_⟩
    · rw [hname u hu, List.length_append, List.length_singleton]
      exact Nat.lt_succ_self _
    · rw [hname u hu]
      exact iff_of_true rfl rfl
    · obtain ⟨u, hu, hunamed⟩ := exists_of_envCell hc
      rw [hname u hu] at hunamed
      cases hunamed
  | closure parent upvalues reused => exact h.closure hstep
  | setfenv f t => exact h.setfenv hC hstep

end Events

/-- `getfenv` finds the environment, and the globals for a function without `_ENV`. -/
theorem getfenv_eq {globals : Env} {s : Functions Env} {j : ℕ} (hagrees : FunctionAgrees s.cells f g)
    (hf : s.functions[j]? = some f) (hlua : f.what ≠ .c) :
    getfenv globals s j = .ok (.env (if (envCell f.upvalues).isSome then g.env else globals)) := by
  rw [getfenv, hf]
  dsimp only
  rcases envlookupLoop_cases f.upvalues 0 false with ⟨k, u, hk, -, hfound, hcell, -⟩ | ⟨hnone, hloop⟩
  · rw [envlookup_of_found hfound, hcell]
    dsimp only
    rw [show 0 + k + 1 - 1 = k by omega, hk]
    dsimp only
    rw [hagrees.env _ hcell]
    rfl
  · have hknown : (f.upvalues.any fun u => decide (u.name = [])) = false := by
      rw [List.any_eq_false]
      intro u hu
      rw [decide_eq_true_eq, hagrees.named u hu]
      exact hlua
    rw [envlookup, hloop, hknown, hnone]
    rfl

/-- The environments that the program sees: those of Lua 5.1, and the globals for a function without `_ENV`. -/
def SeesEnvironments (globals : Env) (s : Lua52State Env × List (Lua51Function Env)) : Prop :=
  s.1.values.length = s.2.length ∧
    ∀ (i j : ℕ) (f : LuaFunction) (g : Lua51Function Env), s.1.values[i]? = some j →
      s.1.store.functions[j]? = some f → s.2[i]? = some g → f.what ≠ .c →
      getfenv globals s.1.store j = .ok (.env (if (envCell f.upvalues).isSome then g.env else globals))

/-- **Environments**: in every run that sets no environment of a function given twice, each Lua function that uses
globals has the environment it has in Lua 5.1. -/
theorem environments_agree (globals : Env) (events : List (EnvEvent Env))
    (hset : EachStep (bothStep globals) SetsUnshared (⟨⟨[], []⟩, []⟩, []) events) :
    Always (bothStep globals) (SeesEnvironments globals) (⟨⟨[], []⟩, []⟩, []) events := by
  refine always_of_inv (I := Agrees) (C := SetsUnshared) (fun s e s' h hC hstep => agrees_step h hC hstep) ?_ events _
    agrees_init hset
  intro s h
  refine ⟨h.length, fun i j f g hi hf hg hlua => ?_⟩
  obtain ⟨f', hf', hagrees⟩ := h.agrees i j g hi hg
  obtain rfl := Option.some.inj (hf.symm.trans hf')
  exact getfenv_eq hagrees hf hlua

/-- A chunk creates a function twice, of which Lua 5.2 makes one, and then gets another environment. -/
def createdTwice : List (EnvEvent ℕ) :=
  [.load, .closure 0 [(envName, some 0)] none, .closure 0 [(envName, some 0)] (some 1), .setfenv 0 7]

theorem createdTwice_agree : Always (bothStep 0) (SeesEnvironments 0) (⟨⟨[], []⟩, []⟩, []) createdTwice := by
  refine environments_agree 0 createdTwice ?_
  have hother : ∀ {s s' : Lua52State ℕ × List (Lua51Function ℕ)} {e : EnvEvent ℕ}, (∀ f t, e ≠ .setfenv f t) →
      SetsUnshared s e s' := fun h f t he => absurd he (h f t)
  refine eachStep_cons rfl (hother nofun) (eachStep_cons rfl (hother nofun) (eachStep_cons rfl (hother nofun)
    (eachStep_cons rfl ?_ trivial)))
  intro f t he i j hf hi
  obtain ⟨rfl, rfl⟩ := EnvEvent.setfenv.inj he
  obtain rfl := Option.some.inj hf
  match i, hi with
  | 0, _ => rfl
  | 1, hi => cases hi
  | 2, hi => cases hi
  | i + 3, hi => cases hi

end Agreement

end Telescope

end YellowTree
