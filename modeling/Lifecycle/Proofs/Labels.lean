import Lifecycle.Command
import Mathlib.Data.List.DropRight
import Mathlib.Data.List.Forall2

/-! Which texts name a command. Main statement: just those that are a label between blanks, where
letters may be written in either case and an underscore as a hyphen; every other text is refused
and given back as it is. -/

namespace Lifecycle

namespace Text

theorem trim_eq (s : List Char) : trim s = (s.dropWhile isBlank).rdropWhile isBlank := rfl

theorem exists_blanks (s : List Char) : ∃ lead trail, s = lead ++ (trim s ++ trail) ∧
    (∀ c ∈ lead, isBlank c) ∧ ∀ c ∈ trail, isBlank c := by
  let rest := s.dropWhile isBlank
  let trail := (rest.reverse.takeWhile isBlank).reverse
  have back : rest = rest.rdropWhile isBlank ++ trail := by
    calc rest = (rest.reverse.takeWhile isBlank ++ rest.reverse.dropWhile isBlank).reverse := by
          rw [List.takeWhile_append_dropWhile, List.reverse_reverse]
      _ = rest.rdropWhile isBlank ++ trail := List.reverse_append
  refine ⟨s.takeWhile isBlank, trail, ?_, ?_, fun c mem => ?_⟩
  · rw [trim_eq, ← back, List.takeWhile_append_dropWhile]
  · exact List.all_eq_true.1 List.all_takeWhile
  · exact List.all_eq_true.1 List.all_takeWhile c (List.mem_reverse.1 mem)

theorem trim_between {lead trail : List Char} (leading : ∀ c ∈ lead, isBlank c)
    (trailing : ∀ c ∈ trail, isBlank c) (s : List Char) :
    trim (lead ++ (s ++ trail)) = trim s := by
  have none : trail.dropWhile isBlank = [] := List.dropWhile_eq_nil_iff.2 trailing
  rw [trim, trim, List.dropWhile_append_of_pos leading, List.dropWhile_append]
  split
  · next blank => rw [none, List.isEmpty_iff.1 blank]
  · rw [List.reverse_append, List.dropWhile_append_of_pos]
    exact fun c mem => trailing c (List.mem_reverse.1 mem)

theorem trim_of_visible {s : List Char} (visible : ∀ c ∈ s, isBlank c = false) : trim s = s := by
  have keeps {t : List Char} (visible : ∀ c ∈ t, isBlank c = false) :
      t.dropWhile isBlank = t := by
    cases t with
    | nil => rfl
    | cons c t => exact List.dropWhile_cons_of_neg (by simp [visible c])
  rw [trim, keeps visible, keeps fun c mem => visible c (List.mem_reverse.1 mem),
    List.reverse_reverse]

theorem trim_map {f : Char → Char} (keeps : ∀ c, isBlank (f c) = isBlank c) (s : List Char) :
    trim (s.map f) = (trim s).map f := by
  have same : isBlank ∘ f = isBlank := funext keeps
  simp only [trim, List.dropWhile_map, same, ← List.map_reverse]

end Text

namespace Command

open Text

theorem toLower_cases (c : Char) :
    (65 ≤ c.toNat ∧ c.toNat ≤ 90) ∧ c.toLower.toNat = c.toNat + 32 ∨
      ¬ (65 ≤ c.toNat ∧ c.toNat ≤ 90) ∧ c.toLower.toNat = c.toNat := by
  have range : (c.val ≥ 'A'.val ∧ c.val ≤ 'Z'.val) ↔ 65 ≤ c.toNat ∧ c.toNat ≤ 90 := by
    rw [ge_iff_le, UInt32.le_iff_toNat_le, UInt32.le_iff_toNat_le]
    rfl
  unfold Char.toLower
  split
  · next upper =>
    refine .inl ⟨range.1 upper, ?_⟩
    have shift : ('a'.val - 'A'.val).toNat = 32 := rfl
    have sum := UInt32.toNat_add c.val ('a'.val - 'A'.val)
    rw [shift, Char.toNat_val] at sum
    rw [← Char.toNat_val, sum]
    have most := (range.1 upper).2
    omega
  · next other => exact .inr ⟨mt range.2 other, rfl⟩

theorem toUpper_cases (c : Char) :
    (97 ≤ c.toNat ∧ c.toNat ≤ 122) ∧ c.toUpper.toNat + 32 = c.toNat ∨
      ¬ (97 ≤ c.toNat ∧ c.toNat ≤ 122) ∧ c.toUpper.toNat = c.toNat := by
  have range : ('a'.val ≤ c.val ∧ c.val ≤ 'z'.val) ↔ 97 ≤ c.toNat ∧ c.toNat ≤ 122 := by
    rw [UInt32.le_iff_toNat_le, UInt32.le_iff_toNat_le]
    rfl
  unfold Char.toUpper
  split
  · next lower =>
    refine .inl ⟨range.1 lower, ?_⟩
    have shift : ('A'.val - 'a'.val).toNat = 4294967264 := rfl
    have sum := UInt32.toNat_add c.val ('A'.val - 'a'.val)
    rw [shift, Char.toNat_val] at sum
    rw [← Char.toNat_val, sum]
    have bounds := range.1 lower
    omega
  · next other => exact .inr ⟨mt range.2 other, rfl⟩

theorem foldChar_cases (c : Char) :
    c.toNat = 45 ∧ (foldChar c).toNat = 95 ∨ c.toNat ≠ 45 ∧ foldChar c = c.toLower := by
  have hyphen : c = '-' ↔ c.toNat = 45 := Char.toNat_inj.symm
  unfold foldChar
  split
  · next same => exact .inl ⟨hyphen.1 same, rfl⟩
  · next other => exact .inr ⟨mt hyphen.2 other, rfl⟩

theorem toNat_foldChar (c : Char) :
    c.toNat = 45 ∧ (foldChar c).toNat = 95 ∨
      (65 ≤ c.toNat ∧ c.toNat ≤ 90) ∧ (foldChar c).toNat = c.toNat + 32 ∨
      (c.toNat ≠ 45 ∧ ¬ (65 ≤ c.toNat ∧ c.toNat ≤ 90)) ∧ (foldChar c).toNat = c.toNat := by
  have lower := toLower_cases c
  rcases foldChar_cases c with hyphen | ⟨other, same⟩
  · exact .inl hyphen
  · rw [same]
    omega

theorem isBlank_of_visible {c : Char} (least : 33 ≤ c.toNat) (most : c.toNat ≤ 126) :
    isBlank c = false := by
  simp [isBlank, blankRanges]
  omega

theorem isBlank_foldChar (c : Char) : isBlank (foldChar c) = isBlank c := by
  have code := toNat_foldChar c
  by_cases folded : 33 ≤ c.toNat ∧ c.toNat ≤ 126
  · rw [isBlank_of_visible folded.1 folded.2, isBlank_of_visible (by omega) (by omega)]
  · have same : foldChar c = c := Char.toNat_inj.1 (by omega)
    rw [same]

def IsLetter (c : Char) : Prop := 97 ≤ c.toNat ∧ c.toNat ≤ 122 ∨ c.toNat = 95

instance (c : Char) : Decidable (IsLetter c) := inferInstanceAs (Decidable (_ ∨ _))

theorem visible_of_letter {c : Char} (letter : IsLetter (foldChar c)) :
    isBlank c = false ∧ c.toNat < 0x80 := by
  have code := toNat_foldChar c
  have range : 33 ≤ c.toNat ∧ c.toNat ≤ 126 := by
    unfold IsLetter at letter
    omega
  exact ⟨isBlank_of_visible range.1 range.2, by omega⟩

/-- How a character of a label may be written: as it is, in upper case, or, if it is the
underscore, as a hyphen. -/
def Alike (letter c : Char) : Prop := c = letter ∨ c = letter.toUpper ∨ letter = '_' ∧ c = '-'

instance (letter c : Char) : Decidable (Alike letter c) := inferInstanceAs (Decidable (_ ∨ _))

theorem alike_iff {letter : Char} (known : IsLetter letter) (c : Char) :
    Alike letter c ↔ letter = foldChar c := by
  have upper := toUpper_cases letter
  have code := toNat_foldChar c
  have underscore : '_'.toNat = 95 := rfl
  have hyphen : '-'.toNat = 45 := rfl
  simp only [Alike, ← Char.toNat_inj]
  unfold IsLetter at known
  omega

def Matches (label : String) (core : List Char) : Prop := List.Forall₂ Alike label.toList core

/-- Between blanks, the text is the command's label, or the other spelling that one of them has. -/
def Names (c : Command) (text : String) : Prop :=
  ∃ lead core trail, text.toList = lead ++ (core ++ trail) ∧ (∀ a ∈ lead, isBlank a) ∧
    (∀ a ∈ trail, isBlank a) ∧
    (Matches c.label core ∨ c = .healthCheck ∧ Matches "healthcheck" core)

theorem letters_of_spelling (c : Command) :
    ∀ spelling ∈ c.spellings, ∀ a ∈ spelling.toList, IsLetter a := by
  have all : c.spellings.all fun spelling => spelling.toList.all fun a => decide (IsLetter a) := by
    cases c <;> decide
  simpa only [List.all_eq_true, decide_eq_true_eq] using all

theorem matches_iff {label : String} (letters : ∀ a ∈ label.toList, IsLetter a)
    (core : List Char) : Matches label core ↔ label.toList = core.map foldChar := by
  unfold Matches
  generalize label.toList = l at letters
  induction l generalizing core with
  | nil => cases core <;> simp
  | cons a l ih =>
    obtain ⟨first, rest⟩ := List.forall_mem_cons.1 letters
    cases core with
    | nil => simp
    | cons b core => simp [alike_iff first, ih core rest]

theorem spelled_iff (c : Command) (core : List Char) :
    (Matches c.label core ∨ c = .healthCheck ∧ Matches "healthcheck" core) ↔
      ∃ spelling ∈ c.spellings, spelling.toList = core.map foldChar := by
  have letters := letters_of_spelling c
  have each : (∃ spelling ∈ c.spellings, spelling.toList = core.map foldChar) ↔
      ∃ spelling ∈ c.spellings, Matches spelling core :=
    exists_congr fun _ => and_congr_right fun mem => (matches_iff (letters _ mem) core).symm
  rw [each]
  cases c <;> simp [spellings, label]

theorem visible_of_spelling {c : Command} {spelling : String} (known : spelling ∈ c.spellings)
    {core : List Char} (same : spelling.toList = core.map foldChar) :
    ∀ a ∈ core, isBlank a = false ∧ a.toNat < 0x80 := by
  intro a inside
  have folded : foldChar a ∈ spelling.toList := same ▸ List.mem_map_of_mem inside
  exact visible_of_letter (letters_of_spelling c _ known _ folded)

theorem find?_spelling (c : Command) : ∀ spelling ∈ c.spellings,
    all.find? (·.spellings.any (·.toList == spelling.toList)) = some c := by
  cases c <;> decide

theorem parse_eq_ok_iff_spelling {text : String} {c : Command} : parse text = .ok c ↔
    ∃ spelling ∈ c.spellings, spelling.toList = (trim text.toList).map foldChar := by
  unfold parse
  dsimp only
  constructor
  · intro parsed
    split at parsed
    · next found =>
      cases parsed
      have spelled := List.find?_some found
      simpa using spelled
    · cases parsed
  · rintro ⟨spelling, mem, same⟩
    rw [← same, find?_spelling c spelling mem]

theorem parse_eq_ok_iff {text : String} {c : Command} : parse text = .ok c ↔ Names c text := by
  rw [parse_eq_ok_iff_spelling]
  constructor
  · intro spelled
    obtain ⟨lead, trail, parts, leading, trailing⟩ := exists_blanks text.toList
    exact ⟨lead, _, trail, parts, leading, trailing, (spelled_iff c _).2 spelled⟩
  · rintro ⟨lead, core, trail, parts, leading, trailing, spelled⟩
    obtain ⟨spelling, mem, same⟩ := (spelled_iff c core).1 spelled
    have visible := visible_of_spelling mem same
    rw [parts, trim_between leading trailing, trim_of_visible fun a inside => (visible a inside).1]
    exact ⟨spelling, mem, same⟩

theorem parse_eq_error_iff {text : String} {e : Unknown} :
    parse text = .error e ↔ e = ⟨text⟩ ∧ ∀ c, ¬ Names c text := by
  simp only [← parse_eq_ok_iff]
  cases outcome : parse text with
  | ok c => simp
  | error e' =>
    obtain ⟨given⟩ := e'
    obtain rfl : given = text := parse_error outcome
    simp [eq_comm]

/-- A character becomes another one by a change of its case, or a hyphen and an underscore by
exchange. -/
def Exchanged (a b : Char) : Prop :=
  b = a ∨ b = a.toUpper ∨ b = a.toLower ∨ a = '-' ∧ b = '_' ∨ a = '_' ∧ b = '-'

instance (a b : Char) : Decidable (Exchanged a b) := inferInstanceAs (Decidable (_ ∨ _))

theorem foldChar_of_exchanged {a b : Char} (exchanged : Exchanged a b) :
    foldChar a = foldChar b := by
  have upper := toUpper_cases a
  have lower := toLower_cases a
  have folded := toNat_foldChar a
  have folded' := toNat_foldChar b
  have underscore : '_'.toNat = 95 := rfl
  have hyphen : '-'.toNat = 45 := rfl
  simp only [Exchanged, ← Char.toNat_inj] at exchanged ⊢
  omega

theorem parse_congr {text text' : String}
    (same : (trim text'.toList).map foldChar = (trim text.toList).map foldChar) (c : Command) :
    parse text' = .ok c ↔ parse text = .ok c := by
  rw [parse_eq_ok_iff_spelling, parse_eq_ok_iff_spelling, same]

theorem trim_of_exchanged {s t : List Char} (exchanged : List.Forall₂ Exchanged s t) :
    (trim t).map foldChar = (trim s).map foldChar := by
  have folded : t.map foldChar = s.map foldChar := by
    induction exchanged with
    | nil => rfl
    | cons first _ ih => rw [List.map_cons, List.map_cons, ih, foldChar_of_exchanged first]
  rw [← trim_map isBlank_foldChar, ← trim_map isBlank_foldChar, folded]

theorem Names.visible {c : Command} {text : String} (names : Names c text) :
    ∃ lead core trail, text.toList = lead ++ (core ++ trail) ∧ (∀ a ∈ lead, isBlank a) ∧
      (∀ a ∈ trail, isBlank a) ∧ ∀ a ∈ core, isBlank a = false ∧ a.toNat < 0x80 := by
  obtain ⟨lead, core, trail, parts, leading, trailing, spelled⟩ := names
  obtain ⟨spelling, mem, same⟩ := (spelled_iff c core).1 spelled
  exact ⟨lead, core, trail, parts, leading, trailing, visible_of_spelling mem same⟩

theorem Names.unbroken {c : Command} {text : String} (names : Names c text)
    {before after : List Char} {gap : Char} (parts : text.toList = before ++ gap :: after)
    (blank : isBlank gap) : (∀ a ∈ before, isBlank a) ∨ ∀ a ∈ after, isBlank a := by
  obtain ⟨lead, core, trail, parts', leading, trailing, visible⟩ := names.visible
  rw [parts] at parts'
  rcases List.append_eq_append_iff.1 parts' with ⟨more, rfl, -⟩ | ⟨more, -, rest⟩
  · exact .inl fun a mem => leading a (List.mem_append_left _ mem)
  rcases List.append_eq_append_iff.1 rest with ⟨more', -, behind⟩ | ⟨more', inside, behind⟩
  · exact .inr fun a mem => trailing a (by simp [behind, mem])
  · rcases List.append_eq_cons_iff.1 behind.symm with ⟨-, all⟩ | ⟨more'', rfl, -⟩
    · exact .inr fun a mem => trailing a (by simp [all, mem])
    · have visible := (visible gap (by simp [inside])).1
      simp [blank] at visible

/-- Which command a text names, if any, and what of the text this depends on. -/
structure Language (text : String) : Prop where
  accepted (c : Command) : parse text = .ok c ↔ Names c text
  refused (e : Unknown) : parse text = .error e ↔ e = ⟨text⟩ ∧ ∀ c, ¬ Names c text
  outer {text' : String} {lead trail : List Char} :
    text'.toList = lead ++ (text.toList ++ trail) → (∀ a ∈ lead, isBlank a) →
    (∀ a ∈ trail, isBlank a) → ∀ c, parse text' = .ok c ↔ parse text = .ok c
  respelled {text' : String} : List.Forall₂ Exchanged text.toList text'.toList →
    ∀ c, parse text' = .ok c ↔ parse text = .ok c
  lookalike {a : Char} : a ∈ text.toList → isBlank a = false → 0x80 ≤ a.toNat →
    parse text = .error ⟨text⟩
  inner {before after : List Char} {a gap b : Char} : text.toList = before ++ gap :: after →
    isBlank gap → a ∈ before → isBlank a = false → b ∈ after → isBlank b = false →
    parse text = .error ⟨text⟩

theorem label_language (text : String) : Language text where
  accepted _ := parse_eq_ok_iff
  refused _ := parse_eq_error_iff
  outer parts leading trailing :=
    parse_congr (by rw [parts, trim_between leading trailing])
  respelled exchanged := parse_congr (trim_of_exchanged exchanged)
  lookalike {a} mem visible wide := by
    refine parse_eq_error_iff.2 ⟨rfl, fun c names => ?_⟩
    obtain ⟨lead, core, trail, parts, leading, trailing, narrow⟩ := names.visible
    rw [parts, List.mem_append, List.mem_append] at mem
    rcases mem with before | inside | behind
    · simp [leading a before] at visible
    · have ascii := (narrow a inside).2
      omega
    · simp [trailing a behind] at visible
  inner parts blank before visible behind visible' := by
    refine parse_eq_error_iff.2 ⟨rfl, fun c names => ?_⟩
    rcases names.unbroken parts blank with leading | trailing
    · simp [leading _ before] at visible
    · simp [trailing _ behind] at visible'

/-- A label respelled and between blanks of two kinds, and one with a look-alike or a blank in
it. -/
theorem label_language_of_health_check :
    parse "hEALTH-check" = .ok .healthCheck ∧ parse "\u2003Health_CHECK\t" = .ok .healthCheck ∧
      parse "pauſe" = .error ⟨"pauſe"⟩ ∧ parse " health check" = .error ⟨" health check"⟩ := by
  have plain : parse "hEALTH-check" = .ok .healthCheck :=
    ((label_language "hEALTH-check").accepted .healthCheck).2
      ⟨[], "hEALTH-check".toList, [], by decide, nofun, nofun, .inl (by unfold Matches; decide)⟩
  have respelled : parse "Health_CHECK" = .ok .healthCheck :=
    ((label_language "hEALTH-check").respelled (by decide) _).2 plain
  have outer : parse "\u2003Health_CHECK\t" = .ok .healthCheck :=
    ((label_language "Health_CHECK").outer
      (show _ = ['\u2003'] ++ ("Health_CHECK".toList ++ ['\t']) by decide)
      (List.forall_mem_singleton.2 rfl) (List.forall_mem_singleton.2 rfl) _).2 respelled
  have lookalike : parse "pauſe" = .error ⟨"pauſe"⟩ :=
    (label_language "pauſe").lookalike (a := 'ſ') (by decide) (by decide) (by decide)
  have inner : parse " health check" = .error ⟨" health check"⟩ :=
    (label_language " health check").inner (a := 'h') (b := 'c')
      (show _ = " health".toList ++ ' ' :: "check".toList by decide)
      (by decide) (by decide) (by decide) (by decide) (by decide)
  exact ⟨plain, outer, lookalike, inner⟩

end Command

end Lifecycle
