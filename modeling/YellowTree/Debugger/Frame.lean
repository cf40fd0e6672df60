import YellowTree.Debugger.Breakpoints
import YellowTree.Debugger.NextLine

/-!
# YellowTree.Debugger.Frame — stack frames, and lines against locations

`Frame:__tostring` looks up the line of a location, `method_location_for_line_num` (in `Debugger.Breakpoints`) the
location of a line.  The first walks the line number table up to the first greater location, the second up to the
first line that is not smaller; it is meant for tables whose lines increase.

* `lineLoop_append`: the second loop passes over smaller lines, and remembers the last location.
* `linesAgree_iff`: the line looked up at the location found for a line `L` of the table is `L` again exactly when
  no entry before the first one of `L` has a greater line.
-/

namespace YellowTree

variable {Class Method : Type}

/-! ## Frames -/

section Frame

/-- A frame made by `Frame.create`.  The location of a native frame is -1, and its method has no line numbers. -/
structure Frame (Class Method : Type) where
  depth : ℤ
  location : ℤ
  methodId : JmethodId Class Method
  deriving DecidableEq

def intText (n : ℤ) : LuaString := (toString n).toList

theorem intText_natCast (n : ℕ) : intText n = Nat.toDigits 10 n := Nat.toList_repr

theorem intText_ne_nil (n : ℕ) : intText n ≠ [] := by
  rw [intText_natCast]
  exact Nat.toDigits_ne_nil

theorem isDigit_of_mem_intText {n : ℕ} {c : Char} (hc : c ∈ intText n) : c.isDigit = true := by
  rw [intText_natCast] at hc
  exact Nat.isDigit_of_mem_toDigits (by decide) (by decide) hc

theorem not_mem_intText {n : ℕ} {c : Char} (hc : c.isDigit = false) : c ∉ intText n := by
  intro hmem
  rw [isDigit_of_mem_intText hmem] at hc
  cases hc

/-- `string.format("%6s", s)`. -/
def padLeft (s : LuaString) : LuaString := List.replicate (6 - s.length) ' ' ++ s

variable (jvm : Jvm Class Method) (sourcefile : Class → Option LuaString)

/-- The text of a frame that shows the line number `line`. -/
def Frame.format (f : Frame Class Method) (line : ℤ) : LuaString :=
  padLeft ('[' :: (intText f.depth ++ [']'])) ++ ' ' :: jvm.className f.methodId.cls ++ '.' ::
    (f.methodId.info jvm).name ++ (f.methodId.info jvm).sig ++ " - ".toList ++ intText f.location ++ " (".toList ++
    (sourcefile f.methodId.cls).getD "<unknown>".toList ++ ':' :: intText line ++ [')']

/-- `Frame:__tostring`; the line number is -1 when the table has none for the location. -/
def Frame.toString (f : Frame Class Method) : LuaString :=
  f.format jvm sourcefile (match lineNum jvm f.methodId.methodIdRaw f.location.toNat with
    | some line => line
    | none => -1)

end Frame

/-! ## The line of a location -/

section Location

variable {table pre post : List LineEntry} {e : LineEntry}

/-- In a table with increasing locations the entry of a location is the last one not behind it. -/
theorem lineNum_eq {jvm : Jvm Class Method} {raw : Method} (htable : (jvm.info raw).lineTable = some (pre ++ e :: post))
    (hsorted : (pre ++ e :: post).Pairwise fun a b => a.location < b.location) :
    lineNum jvm raw e.location = some e.lineNum := by
  obtain ⟨-, hpost, hpre⟩ := List.pairwise_append.mp hsorted
  have hle : ∀ a ∈ pre ++ [e], decide (a.location ≤ e.location) = true := by
    intro a ha
    rcases List.mem_append.mp ha with ha | ha
    · have := hpre a ha e List.mem_cons_self
      exact decide_eq_true (by omega)
    · rw [List.mem_singleton] at ha
      exact decide_eq_true (by rw [ha])
  have hgt : post.takeWhile (fun a => decide (a.location ≤ e.location)) = [] := by
    cases post with
    | nil => rfl
    | cons a post =>
      have := (List.pairwise_cons.mp hpost).1 a List.mem_cons_self
      rw [List.takeWhile_cons, if_neg]
      rw [decide_eq_true_eq]
      omega
  have hsplit : pre ++ e :: post = (pre ++ [e]) ++ post := by simp
  unfold lineNum
  rw [htable, Option.getD_some, hsplit, List.takeWhile_append_of_pos hle, hgt, List.append_nil, List.getLast?_append]
  rfl

/-- Two entries at one location are the same. -/
theorem eq_of_location_eq (hsorted : table.Pairwise fun a b => a.location < b.location) {a b : LineEntry}
    (ha : a ∈ table) (hb : b ∈ table) (h : a.location = b.location) : a = b := by
  have hnodup : (table.map LineEntry.location).Nodup :=
    List.pairwise_map.mpr (hsorted.imp fun hlt => Nat.ne_of_lt hlt)
  exact List.inj_on_of_nodup_map hnodup ha hb h

end Location

/-! ## The location of a line -/

section Line

theorem equals_finite (L n : ℕ) : (LuaNumber.finite L).equals n = decide (L = n) := by
  simp [LuaNumber.equals]

theorem less_finite (L n : ℕ) : (LuaNumber.finite L).less n = decide (L < n) := by
  simp [LuaNumber.less]

/-- The loop passes over the entries with smaller lines. -/
theorem lineLoop_append {L : ℕ} (rest : List LineEntry) : ∀ (pre : List LineEntry) (prev : Option ℕ),
    (∀ e ∈ pre, e.lineNum < L) → lineLoop (.finite L) prev (pre ++ rest) =
      lineLoop (.finite L) ((pre.getLast?.map LineEntry.location).or prev) rest
  | [], prev, _ => by simp
  | e :: pre, prev, hpre => by
    have he := hpre e List.mem_cons_self
    rw [List.cons_append, lineLoop, equals_finite, less_finite, if_neg (by rw [decide_eq_true_eq]; omega),
      if_neg (by rw [decide_eq_true_eq]; omega),
      lineLoop_append rest pre (some e.location) fun a ha => hpre a (List.mem_cons_of_mem _ ha), List.getLast?_cons]
    cases pre.getLast? with
    | none => rfl
    | some a => rfl

/-- At the first entry whose line is not smaller, the loop ends: with its location when the line is the one looked
for, otherwise with the location of the entry before, or 0. -/
theorem lineLoop_split {L : ℕ} {pre post : List LineEntry} {x : LineEntry} (hpre : ∀ e ∈ pre, e.lineNum < L)
    (hx : L ≤ x.lineNum) : lineLoop (.finite L) none (pre ++ x :: post) =
      some (if L = x.lineNum then x.location else ((pre.getLast?.map LineEntry.location).getD 0)) := by
  rw [lineLoop_append _ pre none hpre, Option.or_none, lineLoop, equals_finite, less_finite]
  by_cases h : L = x.lineNum
  · rw [if_pos (decide_eq_true h), if_pos h]
  · rw [if_neg (by simpa using h), if_pos (decide_eq_true (by omega)), if_neg h]

/-- The first entry whose line is not smaller than a line of the table. -/
theorem exists_first_ge {L : ℕ} : ∀ {table : List LineEntry}, (∃ e ∈ table, e.lineNum = L) →
    ∃ pre x post, table = pre ++ x :: post ∧ (∀ e ∈ pre, e.lineNum < L) ∧ L ≤ x.lineNum
  | [], h => by simp at h
  | e :: table, h => by
    by_cases he : L ≤ e.lineNum
    · exact ⟨[], e, table, rfl, by simp, he⟩
    · have htail : ∃ a ∈ table, a.lineNum = L := by
        obtain ⟨a, ha, hL⟩ := h
        rcases List.mem_cons.mp ha with rfl | ha
        · omega
        · exact ⟨a, ha, hL⟩
      obtain ⟨pre, x, post, rfl, hpre, hx⟩ := exists_first_ge htail
      exact ⟨e :: pre, x, post, rfl, List.forall_mem_cons.mpr ⟨by omega, hpre⟩, hx⟩

end Line

/-! ## There and back -/

section Agree

/-- The location found for the line `L` is that of an entry of `L`, and a frame stopped there shows `L`. -/
def LinesAgree (jvm : Jvm Class Method) (sourcefile : Class → Option LuaString) (m : JmethodId Class Method)
    (table : List LineEntry) (L : ℕ) : Prop :=
  ∃ e ∈ table, e.lineNum = L ∧ methodLocationForLineNum (m.info jvm) (.finite L) = .ok e.location ∧
    ∀ depth : ℤ, (Frame.mk depth e.location m).toString jvm sourcefile =
      (Frame.mk depth e.location m).format jvm sourcefile L

/-- **The two look-ups agree** on a line exactly when the entries before its first one all have smaller lines. -/
theorem linesAgree_iff (jvm : Jvm Class Method) (sourcefile : Class → Option LuaString) (m : JmethodId Class Method)
    (table : List LineEntry) (htable : (m.info jvm).lineTable = some table)
    (hsorted : table.Pairwise fun a b => a.location < b.location)
    (hzero : ∀ e, table.head? = some e → e.location = 0) (L : ℕ) (hL : ∃ e ∈ table, e.lineNum = L) :
    LinesAgree jvm sourcefile m table L ↔ ∀ e ∈ table.takeWhile (·.lineNum ≠ L), e.lineNum < L := by
  obtain ⟨pre, x, post, rfl, hpre, hx⟩ := exists_first_ge hL
  have hne : ∀ e ∈ pre, decide (e.lineNum ≠ L) = true := fun e he => decide_eq_true (by have := hpre e he; omega)
  have hmem : x ∈ pre ++ x :: post := by simp
  have hfound : methodLocationForLineNum (m.info jvm) (.finite L) =
      .ok (if L = x.lineNum then x.location else ((pre.getLast?.map LineEntry.location).getD 0) : ℕ) := by
    unfold methodLocationForLineNum
    rw [htable]
    dsimp only
    rw [lineLoop_split hpre hx]
  rw [List.takeWhile_append_of_pos hne, List.takeWhile_cons]
  constructor
  · rintro ⟨e, he, hline, hloc, -⟩
    by_cases h : L = x.lineNum
    · rw [if_neg (by simpa using h.symm), List.append_nil]
      exact hpre
    · -- the loop stopped early: no entry of the line is at the location before
      exfalso
      rw [hfound, if_neg h] at hloc
      have hloc : (pre.getLast?.map LineEntry.location).getD 0 = e.location := by
        exact_mod_cast Except.ok.inj hloc
      rcases List.eq_nil_or_concat' pre with rfl | ⟨p, y, rfl⟩
      · have hx0 : x.location = e.location := (hzero x rfl).trans hloc
        rw [eq_of_location_eq hsorted hmem he hx0] at h
        exact h hline.symm
      · rw [List.getLast?_concat] at hloc
        have hy := hpre y (by simp)
        rw [eq_of_location_eq hsorted (by simp) he hloc] at hy
        omega
  · intro hall
    have h : L = x.lineNum := by
      by_contra h
      rw [if_pos (by simpa using Ne.symm h)] at hall
      have := hall x (by simp)
      omega
    refine ⟨x, hmem, h.symm, by rw [hfound, if_pos h], fun depth => ?_⟩
    unfold Frame.toString
    rw [Int.toNat_natCast, lineNum_eq htable hsorted, ← h]

/-- A loop: its condition, on line 11, is compiled behind its body, on line 12. -/
def loopJvm : Jvm Unit Unit :=
  { mainJvm with info := fun _ => ⟨"run".toList, [], none, true, some [⟨0, 10⟩, ⟨2, 12⟩, ⟨6, 11⟩, ⟨9, 13⟩]⟩ }

/-- The look-up of line 11 stops at line 12 and gives the location of line 10. -/
theorem loop_not_linesAgree :
    ¬ LinesAgree loopJvm (fun _ => none) ⟨(), ()⟩ [⟨0, 10⟩, ⟨2, 12⟩, ⟨6, 11⟩, ⟨9, 13⟩] 11 := by
  rintro ⟨e, he, hline, hloc, -⟩
  have hfound : methodLocationForLineNum (loopJvm.info ()) (.finite (11 : ℕ)) = .ok 0 := rfl
  have h0 : (0 : ℤ) = e.location := Except.ok.inj (hfound.symm.trans hloc)
  simp only [List.mem_cons, List.not_mem_nil, or_false] at he
  rcases he with rfl | rfl | rfl | rfl
  all_goals simp at hline h0

/-- Line 13 is found: no line before it is greater. -/
theorem loop_linesAgree :
    LinesAgree loopJvm (fun _ => none) ⟨(), ()⟩ [⟨0, 10⟩, ⟨2, 12⟩, ⟨6, 11⟩, ⟨9, 13⟩] 13 := by
  refine (linesAgree_iff loopJvm (fun _ => none) ⟨(), ()⟩ _ rfl (by decide) (fun e he => ?_) 13
    ⟨⟨9, 13⟩, by decide, rfl⟩).mpr (by decide)
  obtain rfl := Option.some.inj he
  rfl

end Agree

end YellowTree
