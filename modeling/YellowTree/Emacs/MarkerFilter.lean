import Mathlib.Data.List.Basic
import YellowTree.Debugger.Frame
import YellowTree.Emacs.JavaNames
import YellowTree.Lib.ListSplit
import YellowTree.Lib.Regex

/-!
# YellowTree.Emacs.MarkerFilter — `gud-yt-marker-filter`

Emacs shows the line of a frame that the debugger prints.  The filter takes the text of the frame apart again with a
regular expression, and makes the file name from the class.

* `spans_marker_iff`: the texts that the regular expression matches, and the groups.
* `followsFrame_iff`: when Emacs goes to the source file and the line of a frame.
-/

namespace YellowTree

open ListSplit Regex

/-! ## The filter -/

section Filter

def notNewline (c : Char) : Bool := c != '\n'

def blank (c : Char) : Bool := c == ' '

/-- The regular expression of `gud-yt-marker-filter`. -/
def markerRegexp : Pattern Char :=
  .seqs [.opt (.chars (· == '*')), .plus blank, .chars (· == '['), .plus Char.isDigit, .chars (· == ']'),
    .chars (· == ' '), .group 1 (.star true notNewline), .chars (· == '.'), .group 2 (.star false (· != '.')),
    .chars (· == '('), .star false notNewline, .text " - ".toList, .plus Char.isDigit, .text " (".toList,
    .group 3 (.star false notNewline), .chars (· == ':'),
    .group 4 (.seq (.opt (.chars (· == '-'))) (.plus Char.isDigit)), .chars (· == ')')]

/-- `string-to-number`, on digits with or without a minus. -/
def stringToNumber : LuaString → ℤ
  | '-' :: ds => - (Nat.ofDigitChars 10 ds 0 : ℕ)
  | ds => (Nat.ofDigitChars 10 ds 0 : ℕ)

/-- `(replace-regexp-in-string "\\." "/" classname)`. -/
def slashes (s : LuaString) : LuaString := s.map fun c => if c = '.' then '/' else c

/-- `gud-yt-marker-filter`: what it does to `gud-last-frame`. -/
def gudYtMarkerFilter (string : LuaString) (gudLastFrame : Option (LuaString × ℤ)) : Option (LuaString × ℤ) :=
  match search markerRegexp string with
  | none => gudLastFrame
  | some matched =>
    let classname := (matched 1).getD []
    let filename := (matched 3).getD []
    let linenum := stringToNumber ((matched 4).getD [])
    if 0 ≤ linenum ∧ filename ≠ "<unknown>".toList then some (slashes classname ++ ".java".toList, linenum)
    else gudLastFrame

theorem stringToNumber_intText (n : ℕ) : stringToNumber (intText n) = n := by
  have hdigits : stringToNumber (intText n) = (Nat.ofDigitChars 10 (intText n) 0 : ℕ) := by
    unfold stringToNumber
    split
    case h_1 ds hminus =>
      exact absurd (hminus ▸ List.mem_cons_self) (not_mem_intText (n := n) (c := '-') (by decide))
    case h_2 => rfl
  rw [hdigits, intText_natCast, Nat.ofDigitChars_toDigits (by decide) (by decide)]

theorem slashes_text (q : QualifiedName) : slashes q.text = q.dir ++ q.simple.text := by
  refine QualifiedName.map_text (fun c hc => ?_) rfl q
  rw [if_neg (identChar_ne hc (by decide))]

end Filter

/-! ## What the regular expression matches -/

section Marker

/-- The parts of a text that matches. -/
structure MarkerText where
  star : LuaString
  sp : LuaString
  depth : LuaString
  cls : LuaString
  method : LuaString
  rest : LuaString
  loc : LuaString
  file : LuaString
  line : LuaString

namespace MarkerText

variable (t : MarkerText)

/-- Behind the method name. -/
def location : LuaString := t.loc ++ ' ' :: '(' :: (t.file ++ ':' :: (t.line ++ [')']))

/-- Behind the depth. -/
def place : LuaString := t.cls ++ '.' :: (t.method ++ '(' :: (t.rest ++ ' ' :: '-' :: ' ' :: t.location))

def text : LuaString := t.star ++ (t.sp ++ '[' :: (t.depth ++ ']' :: ' ' :: t.place))

def groups : Groups Char :=
  Function.update (Function.update (Function.update (Function.update Groups.none 1 (some t.cls)) 2 (some t.method)) 3
    (some t.file)) 4 (some t.line)

structure Legal : Prop where
  star : t.star = ['*'] ∨ t.star = []
  sp : t.sp ≠ [] ∧ ∀ c ∈ t.sp, blank c = true
  depth : t.depth ≠ [] ∧ ∀ c ∈ t.depth, c.isDigit = true
  cls : ∀ c ∈ t.cls, notNewline c = true
  method : ∀ c ∈ t.method, (c != '.') = true
  rest : ∀ c ∈ t.rest, notNewline c = true
  loc : t.loc ≠ [] ∧ ∀ c ∈ t.loc, c.isDigit = true
  file : ∀ c ∈ t.file, notNewline c = true
  line : ∃ sign ds, t.line = sign ++ ds ∧ (sign = ['-'] ∨ sign = []) ∧ ds ≠ [] ∧ ∀ c ∈ ds, c.isDigit = true

end MarkerText

/-- The last group: a minus and digits. -/
theorem spans_number {w : LuaString} {g g' : Groups Char} :
    (Pattern.seq (.opt (.chars (· == '-'))) (.plus Char.isDigit)).Spans w g g' ↔
      (∃ sign ds, w = sign ++ ds ∧ (sign = ['-'] ∨ sign = []) ∧ ds ≠ [] ∧ ∀ c ∈ ds, c.isDigit = true) ∧ g' = g := by
  constructor
  · rintro ⟨sign, ds, m, rfl, hopt, hds⟩
    obtain ⟨hsign, rfl⟩ := spans_opt_char.mp hopt
    obtain ⟨hne, hdigits, rfl⟩ := spans_plus.mp hds
    exact ⟨⟨sign, ds, rfl, hsign, hne, hdigits⟩, rfl⟩
  · rintro ⟨⟨sign, ds, rfl, hsign, hne, hdigits⟩, rfl⟩
    exact ⟨sign, ds, g', rfl, spans_opt_char.mpr ⟨hsign, rfl⟩, spans_plus.mpr ⟨hne, hdigits, rfl⟩⟩

theorem spans_marker_iff {w : LuaString} {g : Groups Char} :
    markerRegexp.Spans w Groups.none g ↔ ∃ t : MarkerText, t.Legal ∧ w = t.text ∧ g = t.groups := by
  unfold markerRegexp
  rw [spans_cons_opt_char]
  simp only [spans_cons_plus, spans_cons_char, spans_cons_group_star, spans_cons_star, spans_cons_text,
    spans_cons_group spans_number]
  constructor
  · rintro ⟨star, _, rfl, hstar, sp, _, rfl, hsp, _, rfl, depth, _, rfl, hdepth, _, rfl, _, rfl, cls, _, rfl, hcls,
      _, rfl, method, _, rfl, hmethod, _, rfl, rest, _, rfl, hrest, _, rfl, loc, _, rfl, hloc, _, rfl,
      file, _, rfl, hfile, _, rfl, line, _, rfl, hline, _, rfl, rfl, rfl⟩
    exact ⟨⟨star, sp, depth, cls, method, rest, loc, file, line⟩,
      ⟨hstar, hsp, hdepth, hcls, hmethod, hrest, hloc, hfile, hline⟩, rfl, rfl⟩
  · rintro ⟨t, ht, rfl, rfl⟩
    exact ⟨t.star, _, rfl, ht.star, t.sp, _, rfl, ht.sp, _, rfl, t.depth, _, rfl, ht.depth, _, rfl, _, rfl,
      t.cls, _, rfl, ht.cls, _, rfl, t.method, _, rfl, ht.method, _, rfl, t.rest, _, rfl, ht.rest, _, rfl,
      t.loc, _, rfl, ht.loc, _, rfl, t.file, _, rfl, ht.file, _, rfl, t.line, _, rfl, ht.line, _, rfl, rfl, rfl⟩

namespace MarkerText

variable {t t' : MarkerText} {post : LuaString}

/-- What is in front of the class is read in one way. -/
theorem place_eq (ht : t.Legal) (ht' : t'.Legal) (h : t.text = t'.text ++ post) : t.place = t'.place ++ post := by
  have hfront : ∀ {t : MarkerText}, t.Legal → ∀ c ∈ t.star ++ t.sp, (c != '[') = true := by
    intro t ht c hc
    rcases List.mem_append.mp hc with hc | hc
    · rcases ht.star with hstar | hstar
      · rw [hstar, List.mem_singleton] at hc
        rw [hc]
        decide
      · rw [hstar] at hc
        simp at hc
    · have hblank := ht.sp.2 c hc
      rw [blank, beq_iff_eq] at hblank
      rw [hblank]
      decide
  have hopen : (t.star ++ t.sp) ++ '[' :: (t.depth ++ ']' :: ' ' :: t.place) =
      (t'.star ++ t'.sp) ++ '[' :: (t'.depth ++ ']' :: ' ' :: (t'.place ++ post)) := by
    simpa [text] using h
  obtain ⟨-, -, hdepth⟩ := split_span hopen (hfront ht) (by decide) (hfront ht') (by decide)
  obtain ⟨-, -, hplace⟩ := split_span hdepth ht.depth.2 (by decide) ht'.depth.2 (by decide)
  exact (List.cons.inj hplace).2

theorem filter_eq {string : LuaString} (gudLastFrame : Option (LuaString × ℤ))
    (h : search markerRegexp string = some t.groups) : gudYtMarkerFilter string gudLastFrame =
      if 0 ≤ stringToNumber t.line ∧ t.file ≠ "<unknown>".toList then
        some (slashes t.cls ++ ".java".toList, stringToNumber t.line)
      else gudLastFrame := by
  have hcls : t.groups 1 = some t.cls := rfl
  have hfile : t.groups 3 = some t.file := rfl
  have hline : t.groups 4 = some t.line := rfl
  unfold gudYtMarkerFilter
  rw [h]
  dsimp only
  rw [hcls, hfile, hline]
  rfl

/-- The last blank before the depth. -/
theorem Legal.exists_last_blank (ht : t.Legal) : ∃ sp, t.sp = sp ++ [' '] := by
  rcases List.eq_nil_or_concat' t.sp with hnil | ⟨sp, c, hsplit⟩
  · exact absurd hnil ht.sp.1
  · have hblank := ht.sp.2 c (by rw [hsplit]; simp)
    rw [blank, beq_iff_eq] at hblank
    exact ⟨sp, by rw [hsplit, hblank]⟩

theorem Legal.close_notMem_line (ht : t.Legal) : ∀ c ∈ t.line, (c != ')') = true := by
  intro c hc
  obtain ⟨sign, ds, hsplit, hsign, -, hds⟩ := ht.line
  rw [hsplit] at hc
  rw [bne_iff_ne]
  rintro rfl
  rcases List.mem_append.mp hc with hc | hc
  · rcases hsign with rfl | rfl
    · simp at hc
    · simp at hc
  · cases hds _ hc

/-- A match that moves `gud-last-frame` to a place names the file of its class. -/
theorem path_of_filter {string path : LuaString} {line : ℤ} (h : search markerRegexp string = some t.groups)
    (hfilter : gudYtMarkerFilter string none = some (path, line)) : slashes t.cls ++ ".java".toList = path := by
  rw [filter_eq none h] at hfilter
  split_ifs at hfilter
  exact (Prod.mk.inj (Option.some.inj hfilter)).1

end MarkerText

end Marker

/-! ## Frames as they are printed -/

section Frames

variable {Class Method : Type}

/-- A source file name: no directory, and no line break. -/
structure FileName where
  text : LuaString
  legal : ∀ c ∈ text, c ≠ '/' ∧ c ≠ '\n'

/-- A frame with a line, of a method of the class `cls` in the source file `file`.  The names of methods and types are
Java's, without blanks and line breaks; that they have no dots the JVM demands. -/
structure PrintedFrame (jvm : Jvm Class Method) (sourcefile : Class → Option LuaString) where
  frame : Frame Class Method
  cls : QualifiedName
  file : FileName
  line : ℕ
  depth_pos : 1 ≤ frame.depth
  location_nonneg : 0 ≤ frame.location
  className_eq : jvm.className frame.methodId.cls = cls.text
  sourcefile_eq : sourcefile frame.methodId.cls = some file.text
  line_eq : lineNum jvm frame.methodId.methodIdRaw frame.location.toNat = some line
  name_legal : ∀ c ∈ (frame.methodId.info jvm).name, c ≠ '.' ∧ c ≠ ' ' ∧ c ≠ '\n'
  sig_legal : ∀ c ∈ (frame.methodId.info jvm).sig, c ≠ ' ' ∧ c ≠ '\n'

/-- The `*` of the current frame. -/
def starText (star : Bool) : LuaString := if star then ['*'] else []

/-- `gud-last-frame` becomes the file in the directory of the package, and the line. -/
def FollowsFrame {jvm : Jvm Class Method} {sourcefile : Class → Option LuaString} (f : PrintedFrame jvm sourcefile)
    (star : Bool) : Prop :=
  ∀ gudLastFrame, gudYtMarkerFilter (starText star ++ f.frame.toString jvm sourcefile) gudLastFrame =
    some (f.cls.dir ++ f.file.text, (f.line : ℤ))

namespace PrintedFrame

variable {jvm : Jvm Class Method} {sourcefile : Class → Option LuaString} (f : PrintedFrame jvm sourcefile)

def name : LuaString := (f.frame.methodId.info jvm).name

def args : LuaString := (f.frame.methodId.info jvm).sig.tail

/-- The parts of the text of the frame. -/
def marker (star : Bool) : MarkerText where
  star := starText star
  sp := List.replicate (4 - (intText f.frame.depth).length) ' '
  depth := intText f.frame.depth
  cls := f.cls.text
  method := f.name
  rest := f.args
  loc := intText f.frame.location
  file := f.file.text
  line := intText f.line

theorem toString_eq (star : Bool) : starText star ++ f.frame.toString jvm sourcefile = (f.marker star).text := by
  unfold Frame.toString
  rw [f.line_eq]
  unfold Frame.format
  rw [f.sourcefile_eq, f.className_eq]
  have hpad : padLeft ('[' :: (intText f.frame.depth ++ [']'])) =
      (f.marker star).sp ++ '[' :: (intText f.frame.depth ++ [']']) := by
    have hlen : 6 - ('[' :: (intText f.frame.depth ++ [']'])).length = 4 - (intText f.frame.depth).length := by
      simp only [List.length_cons, List.length_append, List.length_nil]
      omega
    unfold padLeft
    rw [hlen]
    rfl
  rw [hpad]
  have hsig : (f.frame.methodId.info jvm).sig = '(' :: f.args := rfl
  rw [hsig]
  simp [MarkerText.text, MarkerText.place, MarkerText.location, marker, name]

theorem exists_depth : ∃ d : ℕ, f.frame.depth = d := ⟨f.frame.depth.toNat, by have := f.depth_pos; omega⟩

theorem exists_location : ∃ l : ℕ, f.frame.location = l := ⟨f.frame.location.toNat, by have := f.location_nonneg; omega⟩

/-- There is a blank before the depth as long as it has at most three digits. -/
theorem sp_eq_nil_iff (star : Bool) : (f.marker star).sp = [] ↔ 1000 ≤ f.frame.depth := by
  obtain ⟨d, hd⟩ := f.exists_depth
  have hthree : (Nat.toDigits 10 d).length ≤ 3 ↔ d < 10 ^ 3 := Nat.length_toDigits_le_iff (by decide) (by decide)
  have hlen : (f.marker star).sp = [] ↔ ¬ (Nat.toDigits 10 d).length ≤ 3 := by
    unfold marker
    rw [hd, intText_natCast, List.replicate_eq_nil_iff]
    omega
  rw [hlen, hthree, hd]
  omega

/-- The method name and the signature. -/
def method : LuaString := f.name ++ '(' :: f.args

theorem place_eq (star : Bool) : (f.marker star).place =
    f.cls.text ++ '.' :: (f.method ++ ' ' :: '-' :: ' ' :: (f.marker star).location) := by
  unfold method MarkerText.place
  rw [List.append_assoc]
  rfl

theorem of_mem_method {c : Char} (hc : c ∈ f.method) : c ≠ '.' ∧ c ≠ ' ' ∧ c ≠ '\n' := by
  rcases List.mem_append.mp hc with hc | hc
  · exact f.name_legal c hc
  · have hsig : c ∈ (f.frame.methodId.info jvm).sig := hc
    refine ⟨?_, f.sig_legal c hsig⟩
    rintro rfl
    exact MethodInfo.dot_notMem_sig _ hsig

theorem marker_legal {star : Bool} (hdepth : f.frame.depth < 1000) : (f.marker star).Legal := by
  obtain ⟨d, hd⟩ := f.exists_depth
  obtain ⟨l, hl⟩ := f.exists_location
  have hline : ∀ {s : LuaString}, '\n' ∉ s → ∀ c ∈ s, notNewline c = true := by
    intro s hs c hc
    exact bne_iff_ne.mpr fun heq => hs (heq ▸ hc)
  refine ⟨?_, ⟨?_, ?_⟩, ?_, ?_, ?_, ?_, ?_, ?_, ?_⟩
  · cases star with
    | true => exact Or.inl rfl
    | false => exact Or.inr rfl
  · intro hnil
    have := (f.sp_eq_nil_iff star).mp hnil
    omega
  · intro c hc
    rw [List.eq_of_mem_replicate hc]
    rfl
  · unfold marker
    rw [hd]
    exact ⟨intText_ne_nil d, fun c => isDigit_of_mem_intText⟩
  · exact hline (f.cls.not_mem (by decide) (by decide))
  · exact fun c hc => bne_iff_ne.mpr (f.name_legal c hc).1
  · exact hline fun hc => (f.sig_legal _ (List.mem_of_mem_tail hc)).2 rfl
  · unfold marker
    rw [hl]
    exact ⟨intText_ne_nil l, fun c => isDigit_of_mem_intText⟩
  · exact hline fun hc => (f.file.legal _ hc).2 rfl
  · exact ⟨[], intText f.line, rfl, Or.inr rfl, intText_ne_nil _, fun c => isDigit_of_mem_intText⟩

variable {f} {star : Bool} {t : MarkerText} {post : LuaString}

/-- The class of a match is the class of the frame, or goes on behind it. -/
theorem cls_cases (ht : t.Legal) (h : (f.marker star).place = t.place ++ post) :
    t.cls = f.cls.text ∨ ∃ l, t.cls = f.cls.text ++ '.' :: l := by
  rw [place_eq, MarkerText.place, List.append_assoc, List.cons_append, List.append_assoc, List.cons_append] at h
  rcases split_cases h with ⟨hcls, -, -⟩ | hlonger | ⟨l, hcls⟩
  · exact Or.inl hcls.symm
  · exact Or.inr hlonger
  · -- the parenthesis behind the method name would be in the class name
    exfalso
    rw [hcls, List.append_assoc, List.cons_append] at h
    have hmethod := (List.cons.inj (List.append_cancel_left h)).2
    rcases split_cases hmethod with ⟨-, hchar, -⟩ | ⟨l', hdot⟩ | ⟨l', hparen⟩
    · cases hchar
    · have hmem := ht.method '.' (by rw [hdot]; simp)
      cases hmem
    · have hmem : '(' ∈ f.cls.text := by
        rw [hcls, hparen]
        simp
      exact f.cls.not_mem (by decide) (by decide) hmem

/-- The class of a match is not shorter than that of the frame; only the right one gives the right path. -/
theorem file_eq_of_path (hcls : t.cls = f.cls.text ∨ ∃ l, t.cls = f.cls.text ++ '.' :: l)
    (hpath : slashes t.cls ++ ".java".toList = f.cls.dir ++ f.file.text) :
    f.file.text = f.cls.simple.text ++ ".java".toList := by
  rcases hcls with hcls | ⟨l, hcls⟩
  · rw [hcls, slashes_text, List.append_assoc] at hpath
    exact (List.append_cancel_left hpath).symm
  · -- there is no slash in the file name
    exfalso
    have hslashes : slashes t.cls = f.cls.dir ++ (f.cls.simple.text ++ '/' :: slashes l) := by
      rw [hcls, ← List.append_assoc, ← slashes_text]
      unfold slashes
      rw [List.map_append, List.map_cons, if_pos rfl]
    rw [hslashes, List.append_assoc] at hpath
    have hfile := List.append_cancel_left hpath
    exact (f.file.legal '/' (by rw [← hfile]; simp)).1 rfl

/-- Behind the last parenthesis. -/
theorem location_eq (f : PrintedFrame jvm sourcefile) (star : Bool) : (f.marker star).location =
    intText f.frame.location ++ ' ' :: '(' :: (f.file.text ++ ':' :: (intText f.line ++ [')'])) := rfl

/-- The blanks in the text of a frame: around the dash, before the parenthesis, and in the name of the file. -/
theorem blank_cases {b p q : LuaString} (hb : ' ' ∉ b)
    (h : p ++ ' ' :: q = b ++ ' ' :: '-' :: ' ' :: (f.marker star).location) :
    (p = b ∧ q = '-' :: ' ' :: (f.marker star).location) ∨ q = (f.marker star).location ∨
      q = '(' :: (f.file.text ++ ':' :: (intText f.line ++ [')'])) ∨
      ∃ p', p' ++ ' ' :: q = f.file.text ++ ':' :: (intText f.line ++ [')']) := by
  rcases split_behind h hb with hdash | ⟨p1, -, h1⟩
  · exact Or.inl hdash
  · rcases split_behind (b := ['-']) h1 (by decide) with ⟨-, hloc⟩ | ⟨p2, -, h2⟩
    · exact Or.inr (Or.inl hloc)
    · obtain ⟨l, hl⟩ := f.exists_location
      rw [location_eq, hl] at h2
      rcases split_behind h2 (not_mem_intText (by decide)) with ⟨-, hparen⟩ | ⟨p3, -, h3⟩
      · exact Or.inr (Or.inr (Or.inl hparen))
      · cases p3 with
        | nil => cases (List.cons.inj h3).1
        | cons c p' => exact Or.inr (Or.inr (Or.inr ⟨p', (List.cons.inj h3).2⟩))

/-- The location begins with a digit. -/
theorem location_head {c : Char} {q : LuaString} (h : c :: q = (f.marker star).location) : c.isDigit = true := by
  obtain ⟨l, hl⟩ := f.exists_location
  rw [location_eq, hl] at h
  obtain ⟨d, ds, hds⟩ := List.exists_cons_of_ne_nil (intText_ne_nil l)
  have hd : d.isDigit = true := isDigit_of_mem_intText (n := l) (by rw [hds]; exact List.mem_cons_self)
  rw [hds, List.cons_append] at h
  rw [(List.cons.inj h).1]
  exact hd

/-- The parts around the dash. -/
theorem method_append (hcls : t.cls = f.cls.text) (h : (f.marker star).place = t.place ++ post) :
    (t.method ++ '(' :: t.rest) ++ ' ' :: ('-' :: ' ' :: (t.location ++ post)) =
      f.method ++ ' ' :: '-' :: ' ' :: (f.marker star).location := by
  rw [place_eq, MarkerText.place, hcls, List.append_assoc] at h
  have hrest := (List.cons.inj (List.append_cancel_left h)).2
  simpa using hrest.symm

section SimpleFile

/-! A file that is named like its class. -/

variable (hfile : f.file.text = f.cls.simple.text ++ ".java".toList)
include hfile

theorem notMem_file {d : Char} (hd : identChar d = false) (hjava : d ∉ ".java".toList) : d ∉ f.file.text := by
  rw [hfile, List.mem_append, not_or]
  exact ⟨f.cls.simple.not_mem hd, hjava⟩

/-- The only other dot is that of the file, and no parenthesis follows it. -/
theorem cls_eq (ht : t.Legal) (h : (f.marker star).place = t.place ++ post) : t.cls = f.cls.text := by
  rcases cls_cases ht h with hcls | ⟨l', hcls⟩
  · exact hcls
  · exfalso
    obtain ⟨l, hl⟩ := f.exists_location
    rw [place_eq, MarkerText.place, hcls, List.append_assoc, List.append_assoc] at h
    have hrest := (List.cons.inj (List.append_cancel_left h)).2
    rw [location_eq, hl, hfile] at hrest
    have hdot : l' ++ '.' :: (t.method ++ '(' :: (t.rest ++ ' ' :: '-' :: ' ' :: t.location) ++ post) =
        (f.method ++ ' ' :: '-' :: ' ' :: (intText l ++ ' ' :: '(' :: f.cls.simple.text)) ++
          '.' :: ("java:".toList ++ (intText f.line ++ [')'])) := by
      simpa using hrest.symm
    have hnodot : '.' ∉ f.method ++ ' ' :: '-' :: ' ' :: (intText l ++ ' ' :: '(' :: f.cls.simple.text) := by
      have hm : '.' ∉ f.method := fun hmem => (f.of_mem_method hmem).1 rfl
      simp [hm, not_mem_intText (n := l) (c := '.') (by decide), f.cls.simple.not_mem (d := '.') (by decide)]
    rcases split_behind hdot hnodot with ⟨-, hparen⟩ | ⟨p', -, hdot'⟩
    · have hmem : '(' ∈ "java:".toList ++ (intText f.line ++ [')']) := by
        rw [← hparen]
        simp
      simp [not_mem_intText (n := f.line) (c := '(') (by decide)] at hmem
    · have hmem : '.' ∈ "java:".toList ++ (intText f.line ++ [')']) := by
        rw [← hdot']
        simp
      simp [not_mem_intText (n := f.line) (c := '.') (by decide)] at hmem

theorem location_append (ht : t.Legal) (h : (f.marker star).place = t.place ++ post) :
    t.location ++ post = (f.marker star).location := by
  have hmethod : ' ' ∉ f.method := fun hmem => (f.of_mem_method hmem).2.1 rfl
  rcases blank_cases hmethod (method_append (cls_eq hfile ht h) h) with ⟨-, hdash⟩ | hdigit | hparen | ⟨p', hname⟩
  · exact (List.cons.inj (List.cons.inj hdash).2).2
  · have hminus := location_head hdigit
    cases hminus
  · cases (List.cons.inj hparen).1
  · exfalso
    have hmem : ' ' ∈ f.file.text ++ ':' :: (intText f.line ++ [')']) := by
      rw [← hname]
      simp
    simp [notMem_file hfile (d := ' ') (by decide) (by decide),
      not_mem_intText (n := f.line) (c := ' ') (by decide)] at hmem

/-- A match has the parts of the frame. -/
theorem parts_eq (ht : t.Legal) (h : (f.marker star).place = t.place ++ post) :
    t.cls = f.cls.text ∧ t.file = f.file.text ∧ t.line = intText f.line := by
  obtain ⟨l, hl⟩ := f.exists_location
  have hloc := location_append hfile ht h
  rw [location_eq, hl, MarkerText.location, List.append_assoc] at hloc
  obtain ⟨-, -, hparen⟩ := split_span hloc ht.loc.2 (by decide) (fun c => isDigit_of_mem_intText) (by decide)
  have hcolon : t.file ++ ':' :: (t.line ++ ')' :: post) = f.file.text ++ ':' :: (intText f.line ++ [')']) := by
    simpa using (List.cons.inj hparen).2
  rcases split_behind hcolon (notMem_file hfile (by decide) (by decide)) with ⟨hname, hline⟩ | ⟨p', -, hline⟩
  · have hclose : ∀ c ∈ intText f.line, (c != ')') = true := by
      intro c hc
      rw [bne_iff_ne]
      rintro rfl
      cases isDigit_of_mem_intText hc
    exact ⟨cls_eq hfile ht h, hname, (split_span hline ht.close_notMem_line (by decide) hclose (by decide)).1⟩
  · exfalso
    have hmem : ':' ∈ intText f.line ++ [')'] := by
      rw [← hline]
      simp
    simp [not_mem_intText (n := f.line) (c := ':') (by decide)] at hmem

end SimpleFile

/-- Without a blank before the depth, the first blank is behind it. -/
theorem text_of_deep (hdeep : 1000 ≤ f.frame.depth) (star : Bool) : (f.marker star).text =
    (starText star ++ '[' :: (intText f.frame.depth ++ [']'])) ++ ' ' :: (f.marker star).place := by
  have hsp : (f.marker star).sp = [] := (f.sp_eq_nil_iff star).mpr hdeep
  have hown : (f.marker star).text =
      starText star ++ '[' :: (intText f.frame.depth ++ ']' :: ' ' :: (f.marker star).place) := by
    unfold MarkerText.text
    rw [hsp]
    rfl
  rw [hown]
  simp

/-- A bracket behind a blank is in the name of the file. -/
theorem bracket_in_file {p q : LuaString} (hdeep : 1000 ≤ f.frame.depth)
    (h : p ++ ' ' :: '[' :: q = (f.marker star).text) :
    ∃ p', p' ++ ' ' :: '[' :: q = f.file.text ++ ':' :: (intText f.line ++ [')']) := by
  obtain ⟨d, hd⟩ := f.exists_depth
  have hcls : ∀ {c : Char}, identChar c = false → c ≠ '.' → c ∉ f.cls.text := fun hc hne => f.cls.not_mem hc hne
  have hmethod : ' ' ∉ f.method := fun hmem => (f.of_mem_method hmem).2.1 rfl
  have hfront : ' ' ∉ starText star ++ '[' :: (intText f.frame.depth ++ [']']) := by
    have hstar : ' ' ∉ starText star := by cases star <;> decide
    have hdigits : ' ' ∉ intText f.frame.depth := by
      rw [hd]
      exact not_mem_intText (by decide)
    simp [hstar, hdigits]
  rw [text_of_deep hdeep] at h
  rcases split_behind h hfront with ⟨-, hhead⟩ | ⟨p1, -, h1⟩
  · -- the class does not begin with a bracket
    exfalso
    obtain ⟨c, cs, hc⟩ := List.exists_cons_of_ne_nil f.cls.text_ne_nil
    rw [place_eq, hc] at hhead
    have hmem : '[' ∈ f.cls.text := by
      rw [hc, ← (List.cons.inj hhead).1]
      exact List.mem_cons_self
    exact hcls (by decide) (by decide) hmem
  · have hb : ' ' ∉ f.cls.text ++ '.' :: f.method := by
      simp [hcls (c := ' ') (by decide) (by decide), hmethod]
    have hplace : p1 ++ ' ' :: '[' :: q =
        (f.cls.text ++ '.' :: f.method) ++ ' ' :: '-' :: ' ' :: (f.marker star).location := by
      rw [h1, place_eq]
      simp
    rcases blank_cases hb hplace with ⟨-, hdash⟩ | hdigit | hparen | hname
    · cases (List.cons.inj hdash).1
    · have hbracket := location_head hdigit
      cases hbracket
    · cases (List.cons.inj hparen).1
    · exact hname

/-- Without a blank before the depth, a match begins in the name of the file, and its class is shorter than that. -/
theorem length_cls_of_deep {pre : LuaString} (hdeep : 1000 ≤ f.frame.depth) (ht : t.Legal)
    (h : (f.marker star).text = pre ++ t.text ++ post) : t.cls.length + 6 ≤ f.file.text.length := by
  obtain ⟨sp, hlast⟩ := ht.exists_last_blank
  have hblank : (pre ++ t.star ++ sp) ++ ' ' :: '[' :: (t.depth ++ ']' :: ' ' :: (t.place ++ post)) =
      (f.marker star).text := by
    rw [h, MarkerText.text, hlast]
    simp
  obtain ⟨p, hp⟩ := bracket_in_file hdeep hblank
  -- so is everything up to the last parenthesis
  have hparen : (p ++ ' ' :: ('[' :: (t.depth ++ ']' :: ' ' :: (t.cls ++ '.' :: (t.method ++ '(' :: (t.rest ++
      ' ' :: '-' :: ' ' :: (t.loc ++ [' '])))))))  ++ '(' :: (t.file ++ ':' :: (t.line ++ ')' :: post)) =
        f.file.text ++ ':' :: (intText f.line ++ [')']) := by
    rw [← hp]
    simp [MarkerText.place, MarkerText.location]
  have hnoparen : '(' ∉ ':' :: (intText f.line ++ [')']) := by
    simp [not_mem_intText (n := f.line) (c := '(') (by decide)]
  obtain ⟨z, hz⟩ := split_left hparen hnoparen
  rw [hz]
  simp only [List.length_append, List.length_cons, List.length_nil]
  omega

end PrintedFrame

end Frames

/-! ## Following a frame -/

section Following

variable {Class Method : Type} {jvm : Jvm Class Method} {sourcefile : Class → Option LuaString}
  {f : PrintedFrame jvm sourcefile} {star : Bool}

namespace PrintedFrame

/-- With a blank before the depth, the match that is found begins with the text. -/
theorem exists_first_match (hdepth : f.frame.depth < 1000) : ∃ (t : MarkerText) (post : LuaString), t.Legal ∧
    (f.marker star).place = t.place ++ post ∧ search markerRegexp (f.marker star).text = some t.groups := by
  have hlegal : (f.marker star).Legal := f.marker_legal hdepth
  have hspans : markerRegexp.Spans (f.marker star).text Groups.none (f.marker star).groups :=
    spans_marker_iff.mpr ⟨f.marker star, hlegal, rfl, rfl⟩
  obtain ⟨w, post, g, hsplit, hw, hsearch⟩ := search_of_spans [] hspans
  obtain ⟨t, ht, rfl, rfl⟩ := spans_marker_iff.mp hw
  rw [List.append_nil] at hsplit hsearch
  exact ⟨t, post, ht, MarkerText.place_eq hlegal ht hsplit, hsearch⟩

theorem exists_match (h : FollowsFrame f star) : ∃ g, search markerRegexp (f.marker star).text = some g := by
  cases hsearch : search markerRegexp (f.marker star).text with
  | some g => exact ⟨g, rfl⟩
  | none =>
    have hnone := h none
    rw [f.toString_eq] at hnone
    unfold gudYtMarkerFilter at hnone
    rw [hsearch] at hnone
    cases hnone

/-- The match gives the path of the file. -/
theorem path_eq {t : MarkerText} (h : FollowsFrame f star)
    (hsearch : search markerRegexp (f.marker star).text = some t.groups) :
    slashes t.cls ++ ".java".toList = f.cls.dir ++ f.file.text := by
  have hnone := h none
  rw [f.toString_eq] at hnone
  exact MarkerText.path_of_filter hsearch hnone

theorem depth_lt_of_follows (h : FollowsFrame f star) : f.frame.depth < 1000 := by
  by_contra hdeep
  obtain ⟨g, hsearch⟩ := exists_match h
  obtain ⟨pre, w, post, hsplit, hspans⟩ := exists_of_search hsearch
  obtain ⟨t, ht, rfl, rfl⟩ := spans_marker_iff.mp hspans
  have hlen : t.cls.length + 6 ≤ f.file.text.length := length_cls_of_deep (by omega) ht hsplit
  have hpath := congrArg List.length (path_eq h hsearch)
  have hslashes : (slashes t.cls).length = t.cls.length := List.length_map _
  have hjava : ".java".toList.length = 5 := rfl
  rw [List.length_append, List.length_append, hslashes, hjava] at hpath
  omega

theorem file_eq_of_follows (h : FollowsFrame f star) : f.file.text = f.cls.simple.text ++ ".java".toList := by
  obtain ⟨t, post, ht, hplace, hsearch⟩ := exists_first_match (depth_lt_of_follows h)
  exact file_eq_of_path (cls_cases ht hplace) (path_eq h hsearch)

end PrintedFrame

/-- **Emacs follows a frame** exactly when its depth is below 1000 and its file is named like its class. -/
theorem followsFrame_iff (jvm : Jvm Class Method) (sourcefile : Class → Option LuaString)
    (f : PrintedFrame jvm sourcefile) (star : Bool) :
    FollowsFrame f star ↔ f.frame.depth < 1000 ∧ f.file.text = f.cls.simple.text ++ ".java".toList := by
  constructor
  · intro h
    exact ⟨f.depth_lt_of_follows h, f.file_eq_of_follows h⟩
  · rintro ⟨hdepth, hfile⟩ gudLastFrame
    obtain ⟨t, post, ht, hplace, hsearch⟩ := f.exists_first_match hdepth
    obtain ⟨hcls, hname, hline⟩ := PrintedFrame.parts_eq hfile ht hplace
    have hknown : f.file.text ≠ "<unknown>".toList := by
      intro heq
      have hmem : '<' ∈ f.file.text := by
        rw [heq]
        decide
      exact PrintedFrame.notMem_file hfile (by decide) (by decide) hmem
    have hpath : slashes f.cls.text ++ ".java".toList = f.cls.dir ++ f.file.text := by
      rw [slashes_text, hfile, List.append_assoc]
    rw [f.toString_eq, MarkerText.filter_eq gudLastFrame hsearch, hcls, hname, hline, stringToNumber_intText, hpath,
      if_pos ⟨Int.natCast_nonneg _, hknown⟩]

/-- A frame of the nested class `Main$Worker`. -/
def workerFrame : PrintedFrame { mainJvm with className := fun _ => "Main$Worker".toList }
    (fun _ => some "Main.java".toList) where
  frame := ⟨1, 0, ⟨(), ()⟩⟩
  cls := ⟨[], ⟨"Main$Worker".toList, by decide, List.forall_iff_forall_mem.mp (by decide)⟩⟩
  file := ⟨"Main.java".toList, List.forall_iff_forall_mem.mp (by decide)⟩
  line := 10
  depth_pos := by decide
  location_nonneg := by decide
  className_eq := rfl
  sourcefile_eq := rfl
  line_eq := rfl
  name_legal := List.forall_iff_forall_mem.mp (by decide)
  sig_legal := List.forall_iff_forall_mem.mp (by decide)

/-- Emacs looks for a file `Main$Worker.java`. -/
theorem workerFrame_not_followed : ¬ FollowsFrame workerFrame false := by
  intro h
  have hfile := PrintedFrame.file_eq_of_follows h
  exact absurd hfile (by decide)

end Following

end YellowTree
