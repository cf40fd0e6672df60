import YellowTree.Telescope.Contexts

/-!
# YellowTree.Telescope.Run — running the tests of the table

For each test that `next` gives, `run` looks up its ancestors in the table, sorts them, calls their `before` functions,
the test, and, with the ancestors reversed in place, their `after` functions.  An error in a hook or a callback ends the
run; one in a test is its result.

* `tableReverse_eq`: the swaps of `table.reverse` reverse a list.
* `run_loaded`: running the table of some files is running their trees: around each test the last `before` of each
  context, outermost first, and the last `after` of each, innermost first, in an environment of its own.
* `run_summary`: the counts of `summary_report` add up to the tests that were run.
-/

namespace YellowTree

namespace Telescope

variable {Func Env World Message : Type}

/-! ## `table.reverse` -/

section Reverse

variable {α : Type}

/-- `t[i], t[j] = t[j], t[i]`. -/
def swap (t : List α) (i j : ℕ) : List α :=
  match t[i - 1]?, t[j - 1]? with
  | some x, some y => (t.set (i - 1) y).set (j - 1) x
  | _, _ => t

/-- The loop of `table.reverse` up to `k`, where `len` is `#t + 1`. -/
def reverseLoop (t : List α) (len : ℕ) : ℕ → List α
  | 0 => t
  | k + 1 => swap (reverseLoop t len k) (k + 1) (len - (k + 1))

def tableReverse (t : List α) : List α := reverseLoop t (t.length + 1) (t.length / 2)

theorem getElem?_swap (t : List α) {i j : ℕ} (hi : i - 1 < t.length) (hj : j - 1 < t.length) (m : ℕ) :
    (swap t i j)[m]? = if m = j - 1 then t[i - 1]? else if m = i - 1 then t[j - 1]? else t[m]? := by
  rw [swap, List.getElem?_eq_getElem hi, List.getElem?_eq_getElem hj]
  dsimp only
  rw [List.getElem?_set, List.length_set]
  by_cases hm : j - 1 = m
  · rw [if_pos hm, if_pos hm.symm, if_pos (hm ▸ hj)]
  · rw [if_neg hm, if_neg (Ne.symm hm), List.getElem?_set]
    by_cases hm' : i - 1 = m
    · rw [if_pos hm', if_pos hm'.symm, if_pos (hm' ▸ hi)]
    · rw [if_neg hm', if_neg (Ne.symm hm')]

/-- After `k` swaps the `k` elements at each end are mirrored. -/
theorem getElem?_reverseLoop (t : List α) {k : ℕ} (hk : k ≤ t.length / 2) :
    (reverseLoop t (t.length + 1) k).length = t.length ∧ ∀ m < t.length,
      (reverseLoop t (t.length + 1) k)[m]? =
        if m < k ∨ t.length - k ≤ m then t[t.length - 1 - m]? else t[m]? := by
  induction k with
  | zero =>
    refine ⟨rfl, fun m hm => ?_⟩
    rw [if_neg (by omega)]
    rfl
  | succ k ih =>
    obtain ⟨hlength, hget⟩ := ih (by omega)
    have hi : k + 1 - 1 < (reverseLoop t (t.length + 1) k).length := by omega
    have hj : t.length + 1 - (k + 1) - 1 < (reverseLoop t (t.length + 1) k).length := by omega
    refine ⟨?_, fun m hm => ?_⟩
    · rw [reverseLoop, swap, List.getElem?_eq_getElem hi, List.getElem?_eq_getElem hj]
      simp only [List.length_set, hlength]
    · rw [reverseLoop, getElem?_swap _ hi hj]
      by_cases hright : m = t.length + 1 - (k + 1) - 1
      · rw [if_pos hright, hget _ (by omega), if_neg (by omega), if_pos (by omega)]
        congr 1
        omega
      rw [if_neg hright]
      by_cases hleft : m = k + 1 - 1
      · rw [if_pos hleft, hget _ (by omega), if_neg (by omega), if_pos (by omega)]
        congr 1
        omega
      rw [if_neg hleft, hget m hm]
      by_cases hdone : m < k ∨ t.length - k ≤ m
      · rw [if_pos hdone, if_pos (by omega)]
      · rw [if_neg hdone, if_neg (by omega)]

/-- `table.reverse` reverses. -/
theorem tableReverse_eq (t : List α) : tableReverse t = t.reverse := by
  obtain ⟨hlength, hget⟩ := getElem?_reverseLoop t (Nat.le_refl _)
  refine List.ext_getElem? fun m => ?_
  by_cases hm : m < t.length
  · rw [tableReverse, hget m hm, List.getElem?_reverse hm]
    by_cases hdone : m < t.length / 2 ∨ t.length - t.length / 2 ≤ m
    · rw [if_pos hdone]
    · -- the element in the middle
      rw [if_neg hdone]
      congr 1
      omega
  · rw [List.getElem?_eq_none (by rw [tableReverse, hlength]; omega), List.getElem?_eq_none (by simp; omega)]

end Reverse

/-! ## `run` -/

section Model

/-- The codes in `status_codes`. -/
inductive Status where
  | err | fail | pass | pending | unassertive
  deriving DecidableEq

def Status.code : Status → ℕ
  | .err => 2
  | .fail => 4
  | .pass => 8
  | .pending => 16
  | .unassertive => 32

/-- `status_names`. -/
def Status.name : Status → LuaString
  | .err => "err".toList
  | .fail => "fail".toList
  | .pass => "pass".toList
  | .pending => "pending".toList
  | .unassertive => "unassertive".toList

/-- `status_labels`. -/
def Status.label : Status → Char
  | .err => 'E'
  | .fail => 'F'
  | .pass => 'P'
  | .pending => '?'
  | .unassertive => 'U'

/-- How the function of a test ends; an assertion that fails raises a table. -/
inductive TestEnd (Message : Type) where
  | returned
  | raisedTable (message : Message)
  | raised (message : Message)

/-- A result table. -/
structure Result (Message : Type) where
  assertionsInvoked : ℕ
  name : LuaString
  context : LuaString
  test : ℕ
  status : Option Status
  message : Option Message
  statusLabel : Option Char

/-- The functions of the files and the callbacks: what they do to the environment of the test and to everything else.
A test also says how many assertions it has invoked.  `withTraceback` is the message of an error. -/
structure Runner (Func Env World Message : Type) where
  newEnv : Env
  hook : Func → Env → World → Except LuaError (Env × World)
  body : Func → Env → World → (ℕ × TestEnd Message) × Env × World
  callbacks : LuaString → List (Result Message → World → Except LuaError World)
  withTraceback : Message → Message

variable (r : Runner Func Env World Message)

/-- `invoke_callback`. -/
def invokeCallback (name : LuaString) (result : Result Message) (w : World) : Except LuaError World :=
  (r.callbacks name).foldlM (fun w c => c result w) w

/-- `invoke_test`: the status, the number of assertions and the message. -/
def invokeTest (func : Func) (env : Env) (w : World) : (Status × ℕ × Option Message) × Env × World :=
  match r.body func env w with
  | ((assertionsInvoked, .returned), s) =>
    if 0 < assertionsInvoked then ((.pass, assertionsInvoked, none), s) else ((.unassertive, 0, none), s)
  | ((assertionsInvoked, .raisedTable message), s) => ((.fail, assertionsInvoked, some message), s)
  | ((assertionsInvoked, .raised message), s) => ((.err, assertionsInvoked, some (r.withTraceback message)), s)

/-- `if contexts[a].before then contexts[a].before() end` for each ancestor, or the same with `after`. -/
def runHooks (field : Entry Func → Option Func) (table : List (ContextItem Func)) :
    List ℕ → Env × World → Except LuaError (Env × World)
  | [], s => .ok s
  | a :: above, s =>
    match entryOf table a with
    | none => .error indexNil
    | some e =>
      match field e with
      | none => runHooks field table above s
      | some func => do
        let s ← r.hook func s.1 s.2
        runHooks field table above s

def topLevelName : LuaString := "Top level".toList

/-- The name of the context of a test. -/
def contextNameOf (table : List (ContextItem Func)) (parent : ℕ) : Except LuaError LuaString :=
  if parent = 0 then .ok topLevelName
  else
    match entryOf table parent with
    | some e => .ok e.name
    | none => .error indexNil

/-- The test, or `true` for one that is pending, and the callback for its status. -/
def runTest (test : Option Func) (result : Result Message) (env : Env) (w : World) :
    Except LuaError (Result Message × Env × World) :=
  match test with
  | some func => do
    let t := invokeTest r func env w
    let result := { result with status := some t.1.1, assertionsInvoked := t.1.2.1, message := t.1.2.2 }
    let w ← invokeCallback r t.1.1.name result t.2.2
    .ok ({ result with statusLabel := some t.1.1.label }, t.2.1, w)
  | none => do
    let result := { result with status := some .pending }
    let w ← invokeCallback r Status.pending.name result w
    .ok ({ result with statusLabel := some Status.pending.label }, env, w)

/-- The body of the loop of `run`. -/
def runEntry (table : List (ContextItem Func)) (i : ℕ) (item : ContextItem Func) (test : Option Func) (w : World) :
    Except LuaError (Result Message × World) := do
  let above ← (ancestors i table).elim (.error indexNil) .ok
  let context ← contextNameOf table item.parent
  let result : Result Message := ⟨0, item.name, context, i, none, none, none⟩
  let above := above.mergeSort (· ≤ ·)
  let w ← invokeCallback r "before".toList result w
  let s ← runHooks r Entry.before table above (r.newEnv, w)
  let t ← runTest r test result s.1 s.2
  let s ← runHooks r Entry.after table (tableReverse above) t.2
  let w ← invokeCallback r "after".toList t.1 s.2
  .ok (t.1, w)

/-- `run`: `order` is what `next` enumerates, `filter` the test filter. -/
def runTable (filter : Entry Func → Bool) (table : List (ContextItem Func)) :
    List ℕ → World → Except LuaError (List (Result Message) × World)
  | [], w => .ok ([], w)
  | i :: order, w =>
    match i with
    | 0 => runTable filter table order w
    | j + 1 =>
      match table[j]? with
      | none => runTable filter table order w
      | some item =>
        match item.test with
        | none => runTable filter table order w
        | some test =>
          if filter item.toEntry then do
            let x ← runEntry r table (j + 1) item test w
            let y ← runTable filter table order x.2
            .ok (x.1 :: y.1, y.2)
          else runTable filter table order w

end Model

/-! ## Running the trees -/

section Trees

variable (r : Runner Func Env World Message)

/-- Calls functions one after another. -/
def callHooks (funcs : List Func) (s : Env × World) : Except LuaError (Env × World) :=
  funcs.foldlM (fun s func => r.hook func s.1 s.2) s

/-- A test in its contexts, outermost first. -/
def runIn (path : List (Entry Func)) (i : ℕ) (e : Entry Func) (test : Option Func) (w : World) :
    Except LuaError (Result Message × World) := do
  let result : Result Message := ⟨0, e.name, (path.getLast?.map Entry.name).getD topLevelName, i, none, none, none⟩
  let w ← invokeCallback r "before".toList result w
  let s ← callHooks r (path.filterMap Entry.before) (r.newEnv, w)
  let t ← runTest r test result s.1 s.2
  let s ← callHooks r (path.reverse.filterMap Entry.after) t.2
  let w ← invokeCallback r "after".toList t.1 s.2
  .ok (t.1, w)

/-- The tests of a forest, in some order. -/
def runForest (filter : Entry Func → Bool) (f : Forest (Entry Func)) :
    List ℕ → World → Except LuaError (List (Result Message) × World)
  | [], w => .ok ([], w)
  | i :: order, w =>
    match i with
    | 0 => runForest filter f order w
    | j + 1 =>
      match (f.paths [])[j]?, f.preorder[j]? with
      | some path, some e =>
        match e.test with
        | none => runForest filter f order w
        | some test =>
          if filter e then do
            let x ← runIn r path (j + 1) e test w
            let y ← runForest filter f order x.2
            .ok (x.1 :: y.1, y.2)
          else runForest filter f order w
      | _, _ => runForest filter f order w

variable {r} {table : List (ContextItem Func)} {field : Entry Func → Option Func} {above : List ℕ}
  {path : List (Entry Func)}

/-- The hooks found by their numbers. -/
theorem runHooks_eq (h : above.map (entryOf table) = path.map some) (s : Env × World) :
    runHooks r field table above s = callHooks r (path.filterMap field) s := by
  induction above generalizing path s with
  | nil =>
    obtain rfl : path = [] := by simpa using h.symm
    rfl
  | cons a above ih =>
    cases path with
    | nil => simp at h
    | cons e path =>
      obtain ⟨ha, habove⟩ := List.cons.inj h
      rw [runHooks, ha]
      dsimp only
      cases hfield : field e with
      | none => rw [List.filterMap_cons_none hfield]; exact ih habove s
      | some func =>
        rw [List.filterMap_cons_some hfield, callHooks, List.foldlM_cons]
        exact congrArg _ (funext fun s' => ih habove s')

/-- The context of the test is the last one of its path. -/
theorem contextNameOf_eq (h : above.reverse.map (entryOf table) = path.map some) (hpos : ∀ x ∈ above, x ≠ 0) :
    contextNameOf table (above.headD 0) = .ok ((path.getLast?.map Entry.name).getD topLevelName) := by
  have hlast := congrArg List.getLast? h
  rw [List.getLast?_map, List.getLast?_map, List.getLast?_reverse] at hlast
  cases above with
  | nil =>
    obtain rfl : path = [] := by simpa using h.symm
    rfl
  | cons a above =>
    rw [List.headD_cons, contextNameOf, if_neg (hpos a List.mem_cons_self)]
    cases hpath : path.getLast? with
    | none => simp [hpath] at hlast
    | some e =>
      rw [hpath] at hlast
      have ha : entryOf table a = some e := by simpa using hlast
      rw [ha]
      rfl

/-- One test of the table. -/
theorem runEntry_eq (f : Forest (Entry Func)) {i : ℕ} {path : List (Entry Func)} {item : ContextItem Func}
    (hpath : (f.paths [])[i]? = some path) (hitem : (items 0 0 f)[i]? = some item) (test : Option Func) (w : World) :
    runEntry r (items 0 0 f) (i + 1) item test w = runIn r path (i + 1) item.toEntry test w := by
  obtain ⟨above, habove, hparent, hpos, hsort, hmap⟩ := ancestors_eq f hpath
  have hitemParent : item.parent = above.headD 0 := by
    rw [parentOf, hitem] at hparent
    exact Option.some.inj hparent
  have hreverse : above.map (entryOf (items 0 0 f)) = path.reverse.map some := by
    rw [List.map_reverse, ← hmap, List.map_reverse, List.reverse_reverse]
  rw [runEntry, habove, Option.elim_some, ok_bind, hitemParent, contextNameOf_eq hmap hpos, ok_bind, hsort]
  dsimp only
  rw [tableReverse_eq, List.reverse_reverse]
  simp only [runHooks_eq hmap, runHooks_eq hreverse]
  rfl

theorem runTable_eq (r : Runner Func Env World Message) (filter : Entry Func → Bool) (f : Forest (Entry Func))
    (order : List ℕ) (w : World) : runTable r filter (items 0 0 f) order w = runForest r filter f order w := by
  induction order generalizing w with
  | nil => rfl
  | cons i order ih =>
    cases i with
    | zero => exact ih w
    | succ j =>
      rw [runTable, runForest]
      by_cases hj : j < f.size
      · obtain ⟨path, hpath⟩ : ∃ path, (f.paths [])[j]? = some path :=
          ⟨_, List.getElem?_eq_getElem (by rwa [Forest.length_paths])⟩
        obtain ⟨e, he⟩ : ∃ e, f.preorder[j]? = some e := ⟨_, List.getElem?_eq_getElem (by rwa [Forest.length_preorder])⟩
        obtain ⟨x, hx⟩ : ∃ x, (f.parents 0 0)[j]? = some x :=
          ⟨_, List.getElem?_eq_getElem (by rwa [Forest.length_parents])⟩
        rw [hpath, he, getElem?_items he hx]
        dsimp only
        simp only [ih, runEntry_eq f hpath (getElem?_items he hx)]
      · have hitem : (items 0 0 f)[j]? = none := List.getElem?_eq_none (by rw [length_items]; omega)
        have hpath : (f.paths [])[j]? = none := List.getElem?_eq_none (by rw [Forest.length_paths]; omega)
        rw [hitem, hpath]
        exact ih w

/-- Loading files and running the table, in whatever order `next` gives the entries, is running the trees of the files;
loading fails when a `before` or `after` stands outside of any context. -/
theorem run_loaded (r : Runner Func Env World Message) (filter : Entry Func → Bool) (files : List (Blocks Func))
    (order : List ℕ) (w : World) :
    (do let table ← loadFiles files []; runTable r filter table order w) =
      if files.any Blocks.hooked then .error indexNil else runForest r filter (filesForest files) order w := by
  rw [loadFiles_eq]
  by_cases h : files.any Blocks.hooked = true
  · rw [if_pos h, if_pos h]
    rfl
  · rw [if_neg h, if_neg h, ok_bind, List.nil_append]
    exact runTable_eq r filter (filesForest files) order w

end Trees

/-! ## `summary_report` -/

section Summary

/-- The table of `summary_report`. -/
structure Summary where
  assertions : ℕ
  errors : ℕ
  failed : ℕ
  passed : ℕ
  pending : ℕ
  tests : ℕ
  unassertive : ℕ
  deriving DecidableEq

def Summary.zero : Summary := ⟨0, 0, 0, 0, 0, 0, 0⟩

/-- The body of the loop of `summary_report`. -/
def Summary.add (s : Summary) (x : Result Message) : Summary :=
  let s := { s with tests := s.tests + 1, assertions := s.assertions + x.assertionsInvoked }
  match x.status with
  | some .err => { s with errors := s.errors + 1 }
  | some .fail => { s with failed := s.failed + 1 }
  | some .pass => { s with passed := s.passed + 1 }
  | some .pending => { s with pending := s.pending + 1 }
  | some .unassertive => { s with unassertive := s.unassertive + 1 }
  | none => s

/-- `summary_report`: the counts. -/
def summaryReport (results : List (Result Message)) : Summary := results.foldl Summary.add .zero

variable {r : Runner Func Env World Message}

/-- What holds of the result of each test. -/
structure Result.Sound (x : Result Message) : Prop where
  status : x.status ≠ none
  asserts : x.status = some .pass → 0 < x.assertionsInvoked
  unasserting : x.status = some .unassertive ∨ x.status = some .pending → x.assertionsInvoked = 0
  label : x.statusLabel = x.status.map Status.label

theorem runTest_sound {test : Option Func} {result x : Result Message} {env : Env} {w : World} {s : Env × World}
    (h : runTest r test result env w = .ok (x, s)) (hzero : result.assertionsInvoked = 0) : x.Sound := by
  cases test with
  | none =>
    obtain ⟨w', -, h⟩ := bind_eq_ok h
    obtain rfl : _ = x := congrArg Prod.fst (Except.ok.inj h)
    exact ⟨by simp, by simp, fun _ => hzero, rfl⟩
  | some func =>
    obtain ⟨w', -, h⟩ := bind_eq_ok h
    obtain rfl : _ = x := congrArg Prod.fst (Except.ok.inj h)
    rw [invokeTest]
    obtain ⟨⟨assertionsInvoked, ended⟩, t⟩ := r.body func env w
    cases ended with
    | returned =>
      by_cases hpos : 0 < assertionsInvoked
      · simp only [if_pos hpos]
        exact ⟨by simp, fun _ => hpos, by simp, rfl⟩
      · simp only [if_neg hpos]
        exact ⟨by simp, by simp, fun _ => rfl, rfl⟩
    | raisedTable message => exact ⟨by simp, by simp, by simp, rfl⟩
    | raised message => exact ⟨by simp, by simp, by simp, rfl⟩

theorem runEntry_sound {table : List (ContextItem Func)} {i : ℕ} {item : ContextItem Func} {test : Option Func}
    {w w' : World} {x : Result Message} (h : runEntry r table i item test w = .ok (x, w')) : x.Sound := by
  rw [runEntry] at h
  obtain ⟨above, -, h⟩ := bind_eq_ok h
  obtain ⟨context, -, h⟩ := bind_eq_ok h
  obtain ⟨w₁, -, h⟩ := bind_eq_ok h
  obtain ⟨s₁, -, h⟩ := bind_eq_ok h
  obtain ⟨t, ht, h⟩ := bind_eq_ok h
  obtain ⟨s₂, -, h⟩ := bind_eq_ok h
  obtain ⟨w₂, -, h⟩ := bind_eq_ok h
  obtain rfl : t.1 = x := congrArg Prod.fst (Except.ok.inj h)
  exact runTest_sound ht rfl

theorem runTable_sound {filter : Entry Func → Bool} {table : List (ContextItem Func)} {order : List ℕ} {w w' : World}
    {results : List (Result Message)} (h : runTable r filter table order w = .ok (results, w')) :
    ∀ x ∈ results, x.Sound := by
  induction order generalizing w w' results with
  | nil =>
    obtain rfl : [] = results := congrArg Prod.fst (Except.ok.inj h)
    exact fun x hx => absurd hx List.not_mem_nil
  | cons i order ih =>
    cases i with
    | zero => exact ih h
    | succ j =>
      rw [runTable] at h
      split at h
      · exact ih h
      · split at h
        · exact ih h
        · split at h
          · obtain ⟨y, hy, h⟩ := bind_eq_ok h
            obtain ⟨⟨ys, w₁⟩, hys, h⟩ := bind_eq_ok h
            obtain rfl : y.1 :: ys = results := congrArg Prod.fst (Except.ok.inj h)
            intro x hx
            rcases List.mem_cons.mp hx with rfl | hx
            · exact runEntry_sound hy
            · exact ih hys x hx
          · exact ih h

/-- The kinds of results add up to the tests, and every test that passed has asserted something. -/
structure Summary.Balanced (s : Summary) : Prop where
  tests : s.passed + s.failed + s.errors + s.pending + s.unassertive = s.tests
  passed : s.passed ≤ s.assertions

theorem Summary.Balanced.add {s : Summary} {x : Result Message} (h : s.Balanced) (hx : x.Sound) :
    (s.add x).Balanced ∧ (s.add x).tests = s.tests + 1 := by
  obtain ⟨htests, hpassed⟩ := h
  have hasserts := hx.asserts
  rw [Summary.add]
  cases hstatus : x.status with
  | none => exact absurd hstatus hx.status
  | some status =>
    cases status with
    | pass =>
      have hpos := hasserts hstatus
      exact ⟨⟨by dsimp only; omega, by dsimp only; omega⟩, rfl⟩
    | err => exact ⟨⟨by dsimp only; omega, by dsimp only; omega⟩, rfl⟩
    | fail => exact ⟨⟨by dsimp only; omega, by dsimp only; omega⟩, rfl⟩
    | pending => exact ⟨⟨by dsimp only; omega, by dsimp only; omega⟩, rfl⟩
    | unassertive => exact ⟨⟨by dsimp only; omega, by dsimp only; omega⟩, rfl⟩

theorem Summary.Balanced.foldl {results : List (Result Message)} {s : Summary} (h : s.Balanced)
    (hresults : ∀ x ∈ results, x.Sound) :
    (results.foldl Summary.add s).Balanced ∧ (results.foldl Summary.add s).tests = s.tests + results.length := by
  induction results generalizing s with
  | nil => exact ⟨h, rfl⟩
  | cons x results ih =>
    obtain ⟨hadd, htests⟩ := h.add (hresults x List.mem_cons_self)
    obtain ⟨hfold, hlength⟩ := ih hadd fun y hy => hresults y (List.mem_cons_of_mem _ hy)
    refine ⟨hfold, ?_⟩
    rw [List.foldl_cons, hlength, htests, List.length_cons]
    omega

/-- Hooks that do nothing and no callbacks; a test is the number of its assertions. -/
def quietRunner : Runner ℕ Unit Unit Unit :=
  ⟨(), fun _ _ _ => .ok ((), ()), fun n _ _ => ((n, .returned), (), ()), fun _ => [], id⟩

/-- A test with three assertions and one without. -/
def twoTests : Forest (Entry ℕ) :=
  .node ⟨[], false, some topLevel, some (some 3), none, none⟩ .nil
    (.node ⟨[], false, some topLevel, some (some 0), none, none⟩ .nil .nil)

def twoResults : List (Result Unit) :=
  [⟨3, [], topLevelName, 1, some .pass, none, some 'P'⟩, ⟨0, [], topLevelName, 2, some .unassertive, none, some 'U'⟩]

/-- The summary of a run counts every test once, as passed, failed, erroneous, pending or unassertive, in whatever order
`pairs` gives the results. -/
theorem run_summary {filter : Entry Func → Bool} {table : List (ContextItem Func)} {order : List ℕ} {w w' : World}
    {results results' : List (Result Message)} (h : runTable r filter table order w = .ok (results, w'))
    (hperm : results'.Perm results) :
    (summaryReport results').Balanced ∧ (summaryReport results').tests = results.length := by
  have hsound : ∀ x ∈ results', x.Sound := fun x hx => runTable_sound h x (hperm.mem_iff.mp hx)
  have hzero : Summary.zero.Balanced := ⟨rfl, Nat.le_refl _⟩
  obtain ⟨hbalanced, htests⟩ := hzero.foldl hsound
  refine ⟨hbalanced, htests.trans ?_⟩
  rw [hperm.length_eq]
  exact Nat.zero_add _

theorem twoTests_summary :
    (summaryReport twoResults.reverse).Balanced ∧ (summaryReport twoResults.reverse).tests = twoResults.length :=
  have h : runTable quietRunner (fun _ => true) (items 0 0 twoTests) [1, 2] () = .ok (twoResults, ()) :=
    (runTable_eq quietRunner _ twoTests _ ()).trans rfl
  run_summary h (List.reverse_perm twoResults)

end Summary

end Telescope

end YellowTree
