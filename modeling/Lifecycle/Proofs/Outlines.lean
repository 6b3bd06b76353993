import Lifecycle.Proofs.Locality

/-! The outline of a value is its tokens without the blanks between them, and the octets of a
document spell it. Whether they do is said with the octets that follow, as the readers see them.
Main statements: octets spell one outline at most, and every outline that is spelled somewhere is
spelled with any blanks between its tokens. -/

namespace Lifecycle

namespace Scan

theorem skipSpace_idem (s : Bytes) : skipSpace (skipSpace s) = skipSpace s := by
  induction s with
  | nil => rfl
  | cons b s ih =>
    by_cases blank : isSpace b = true
    · have less : skipSpace (b :: s) = skipSpace s := List.dropWhile_cons_of_pos blank
      rw [less, ih]
    · have same : skipSpace (b :: s) = b :: s := List.dropWhile_cons_of_neg blank
      rw [same, same]

theorem length_skipSpace (s : Bytes) : (skipSpace s).length ≤ s.length :=
  (List.dropWhile_suffix isSpace).length_le

theorem length_of_skipSpace {s r : Bytes} {b : UInt8} (begins : skipSpace s = b :: r) :
    r.length < s.length := by
  have shorter := length_skipSpace s
  rw [begins] at shorter
  exact shorter

theorem skipSpace_blanks {gap : Bytes} (blank : ∀ b ∈ gap, isSpace b) (s : Bytes) :
    skipSpace (gap ++ s) = skipSpace s := List.dropWhile_append_of_pos blank

theorem skipSpace_visible {b : UInt8} (visible : isSpace b = false) (s : Bytes) :
    skipSpace (b :: s) = b :: s := List.dropWhile_cons_of_neg (by simp [visible])

theorem stops_blank {b : UInt8} (blank : isSpace b = true) (s : Bytes) :
    Numeral.Stops (b :: s) := by
  rintro c ⟨⟩
  simp only [isSpace, Bool.or_eq_true, beq_iff_eq] at blank
  rcases blank with ((rfl | rfl) | rfl) | rfl <;> decide

theorem stops_of_skipSpace {s r : Bytes} (begins : skipSpace s = r) (stops : Numeral.Stops r) :
    Numeral.Stops s := by
  cases s with
  | nil => exact nofun
  | cons c s =>
    by_cases blank : isSpace c = true
    · exact stops_blank blank s
    · rw [skipSpace, List.dropWhile_cons_of_neg blank] at begins
      rwa [begins]

end Scan

/-- A value by its tokens: one without brackets by its octets, a key by those between its
quotes. -/
inductive Outline
  | scalar (octets : Bytes)
  | array (elements : List Outline)
  | object (members : List (Bytes × Outline))

namespace Outline

open Scan Numeral

def Led : Bool → Bytes → Bytes → Prop
  | true, s, rest => s = rest
  | false, s, rest => skipSpace s = octet ',' :: rest

def SpellsKey (k s rest : Bytes) : Prop :=
  Inside k ∧ ∃ r, skipSpace s = octet '"' :: (k ++ octet '"' :: r) ∧
    skipSpace r = octet ':' :: rest

mutual

/-- The octets `s` are the tokens of a value, with any blanks before each of them, and then
`rest`. -/
def Spells : Outline → Bytes → Bytes → Prop
  | scalar octets, s, rest => Skip.scalar octets = .ok [] ∧ skipSpace s = octets ++ rest
  | array xs, s, rest => ∃ r, skipSpace s = octet '[' :: r ∧ SpellsElements true xs r rest
  | object ms, s, rest => ∃ r, skipSpace s = octet '\x7b' :: r ∧ SpellsMembers true ms r rest

def SpellsElements : Bool → List Outline → Bytes → Bytes → Prop
  | _, [], s, rest => skipSpace s = octet ']' :: rest
  | first, x :: xs, s, rest =>
    ∃ r t, Led first s r ∧ Spells x r t ∧ SpellsElements false xs t rest

def SpellsMembers : Bool → List (Bytes × Outline) → Bytes → Bytes → Prop
  | _, [], s, rest => skipSpace s = octet '\x7d' :: rest
  | first, (k, x) :: ms, s, rest =>
    ∃ r q t, Led first s r ∧ SpellsKey k r q ∧ Spells x q t ∧ SpellsMembers false ms t rest

end

def Whole (x : Outline) : Prop := ∃ s rest, x.Spells s rest

def IsDocument (x : Outline) (document : Bytes) : Prop :=
  ∃ rest, x.Spells document rest ∧ skipSpace rest = []

theorem stops_elements {xs : List Outline} {s rest : Bytes}
    (spells : SpellsElements false xs s rest) : Stops s := by
  cases xs with
  | nil => exact stops_of_skipSpace spells (by rintro b ⟨⟩; decide)
  | cons x xs =>
    obtain ⟨r, t, led, -⟩ := spells
    exact stops_of_skipSpace led (by rintro b ⟨⟩; decide)

theorem stops_members {ms : List (Bytes × Outline)} {s rest : Bytes}
    (spells : SpellsMembers false ms s rest) : Stops s := by
  cases ms with
  | nil => exact stops_of_skipSpace spells (by rintro b ⟨⟩; decide)
  | cons m ms =>
    obtain ⟨r, q, t, led, -⟩ := spells
    exact stops_of_skipSpace led (by rintro b ⟨⟩; decide)

theorem scalar_begins {octets : Bytes} (whole : Skip.scalar octets = .ok []) :
    ∃ b p, octets = b :: p ∧ Json.Plain b ∧ b ≠ octet ']' ∧
      ∀ t, Stops t → Skip.scalar (octets ++ t) = .ok t := by
  obtain ⟨b, p, rfl, plain, passes⟩ := Json.scalar_local whole
  rw [List.append_nil] at whole ⊢
  refine ⟨b, p, rfl, plain, ?_, passes⟩
  rintro rfl
  cases whole

theorem Spells.begins {x : Outline} {s rest : Bytes} (spells : x.Spells s rest) :
    ∃ b r, skipSpace s = b :: r ∧ b ≠ octet ']' := by
  cases x with
  | scalar octets =>
    obtain ⟨whole, begins⟩ := spells
    obtain ⟨b, p, rfl, -, other, -⟩ := scalar_begins whole
    exact ⟨b, p ++ rest, begins, other⟩
  | array xs =>
    obtain ⟨r, begins, -⟩ := spells
    exact ⟨_, r, begins, by decide⟩
  | object ms =>
    obtain ⟨r, begins, -⟩ := spells
    exact ⟨_, r, begins, by decide⟩

theorem Led.length_le {first : Bool} {s rest : Bytes} (led : Led first s rest) :
    rest.length ≤ s.length := by
  cases first with
  | true => exact Nat.le_of_eq (congrArg List.length (Eq.symm led))
  | false => exact Nat.le_of_lt (length_of_skipSpace led)

theorem SpellsKey.length_lt {k s rest : Bytes} (spells : SpellsKey k s rest) :
    rest.length < s.length := by
  obtain ⟨-, r, begins, colon⟩ := spells
  have one := length_of_skipSpace begins
  have two := length_of_skipSpace colon
  simp only [List.length_append, List.length_cons] at one
  omega

mutual

theorem Spells.length_lt {x : Outline} {s rest : Bytes} (spells : x.Spells s rest) :
    rest.length < s.length := by
  match x, spells with
  | scalar octets, ⟨whole, begins⟩ =>
    obtain ⟨b, p, rfl, -⟩ := scalar_begins whole
    have shorter := length_of_skipSpace begins
    exact Nat.lt_of_le_of_lt (List.sublist_append_right p rest).length_le shorter
  | array xs, ⟨r, begins, elements⟩ =>
    exact Nat.lt_trans (elements_length_lt elements) (length_of_skipSpace begins)
  | object ms, ⟨r, begins, members⟩ =>
    exact Nat.lt_trans (members_length_lt members) (length_of_skipSpace begins)

theorem elements_length_lt {first : Bool} {xs : List Outline} {s rest : Bytes}
    (spells : SpellsElements first xs s rest) : rest.length < s.length := by
  match xs, spells with
  | [], closed => exact length_of_skipSpace closed
  | x :: xs, ⟨r, t, led, value, more⟩ =>
    have one := led.length_le
    have two := Spells.length_lt value
    have three := elements_length_lt more
    omega

theorem members_length_lt {first : Bool} {ms : List (Bytes × Outline)} {s rest : Bytes}
    (spells : SpellsMembers first ms s rest) : rest.length < s.length := by
  match ms, spells with
  | [], closed => exact length_of_skipSpace closed
  | (k, x) :: ms, ⟨r, q, t, led, key, value, more⟩ =>
    have one := led.length_le
    have two := key.length_lt
    have three := Spells.length_lt value
    have four := members_length_lt more
    omega

end

theorem Led.unique {first : Bool} {s r r' : Bytes} (one : Led first s r) (two : Led first s r') :
    r = r' := by
  cases first with
  | true => exact Eq.trans (Eq.symm one) two
  | false => exact (List.cons.inj (Eq.trans (Eq.symm one) two)).2

theorem SpellsKey.unique {k k' s rest rest' : Bytes} (one : SpellsKey k s rest)
    (two : SpellsKey k' s rest') : k = k' ∧ rest = rest' := by
  obtain ⟨inside, r, begins, colon⟩ := one
  obtain ⟨inside', r', begins', colon'⟩ := two
  have same := (List.cons.inj (begins.symm.trans begins')).2
  have passed : skipString (k ++ octet '"' :: r) = .ok r := skipString_eq_ok_iff.2 ⟨k, rfl, inside⟩
  have passed' : skipString (k' ++ octet '"' :: r') = .ok r' :=
    skipString_eq_ok_iff.2 ⟨k', rfl, inside'⟩
  obtain rfl : r = r' := Except.ok.inj (passed.symm.trans ((congrArg _ same).trans passed'))
  exact ⟨List.append_cancel_right same, (List.cons.inj (colon.symm.trans colon')).2⟩

theorem Led.not_bracket {first : Bool} {s r : Bytes} (led : Led first s r) {x : Outline}
    {t : Bytes} (value : x.Spells r t) (rest : Bytes) : skipSpace s ≠ octet ']' :: rest := by
  intro closed
  cases first with
  | true =>
    obtain rfl : s = r := led
    obtain ⟨b, r, begins, other⟩ := value.begins
    exact other (List.cons.inj (begins.symm.trans closed)).1
  | false => exact absurd (List.cons.inj (Eq.trans (Eq.symm led) closed)).1 (by decide)

theorem Led.not_brace {first : Bool} {s r : Bytes} (led : Led first s r) {k t : Bytes}
    (key : SpellsKey k r t) (rest : Bytes) : skipSpace s ≠ octet '\x7d' :: rest := by
  intro closed
  cases first with
  | true =>
    obtain rfl : s = r := led
    obtain ⟨-, r, begins, -⟩ := key
    exact absurd (List.cons.inj (begins.symm.trans closed)).1 (by decide)
  | false => exact absurd (List.cons.inj (Eq.trans (Eq.symm led) closed)).1 (by decide)

theorem scalar_apart {octets s rest r : Bytes} {b : UInt8} (whole : Skip.scalar octets = .ok [])
    (begins : skipSpace s = octets ++ rest) (other : skipSpace s = b :: r) :
    Skip.opening? b = none := by
  obtain ⟨c, p, rfl, plain, -⟩ := scalar_begins whole
  obtain ⟨rfl, -⟩ := List.cons.inj (begins.symm.trans other)
  exact plain.2

mutual

theorem Spells.unique {x y : Outline} {s rest rest' : Bytes} (one : x.Spells s rest)
    (two : y.Spells s rest') (stops : Stops rest) (stops' : Stops rest') :
    x = y ∧ rest = rest' := by
  match x, y, one, two with
  | scalar octets, scalar octets', ⟨whole, begins⟩, ⟨whole', begins'⟩ =>
    obtain ⟨-, -, -, -, -, passes⟩ := scalar_begins whole
    obtain ⟨-, -, -, -, -, passes'⟩ := scalar_begins whole'
    have same := begins.symm.trans begins'
    have passed := passes rest stops
    rw [same, passes' rest' stops'] at passed
    cases passed
    exact ⟨congrArg scalar (List.append_cancel_right same), rfl⟩
  | scalar _, array _, ⟨whole, begins⟩, ⟨_, bracket, _⟩ =>
    exact absurd (scalar_apart whole begins bracket) (by decide)
  | scalar _, object _, ⟨whole, begins⟩, ⟨_, brace, _⟩ =>
    exact absurd (scalar_apart whole begins brace) (by decide)
  | array _, scalar _, ⟨_, bracket, _⟩, ⟨whole, begins⟩ =>
    exact absurd (scalar_apart whole begins bracket) (by decide)
  | object _, scalar _, ⟨_, brace, _⟩, ⟨whole, begins⟩ =>
    exact absurd (scalar_apart whole begins brace) (by decide)
  | array _, object _, ⟨_, bracket, _⟩, ⟨_, brace, _⟩ =>
    exact absurd (List.cons.inj (bracket.symm.trans brace)).1 (by decide)
  | object _, array _, ⟨_, brace, _⟩, ⟨_, bracket, _⟩ =>
    exact absurd (List.cons.inj (bracket.symm.trans brace)).1 (by decide)
  | array xs, array ys, ⟨r, begins, elements⟩, ⟨r', begins', elements'⟩ =>
    obtain ⟨-, rfl⟩ := List.cons.inj (begins.symm.trans begins')
    obtain ⟨rfl, rfl⟩ := elements_unique elements elements'
    exact ⟨rfl, rfl⟩
  | object ms, object ns, ⟨r, begins, members⟩, ⟨r', begins', members'⟩ =>
    obtain ⟨-, rfl⟩ := List.cons.inj (begins.symm.trans begins')
    obtain ⟨rfl, rfl⟩ := members_unique members members'
    exact ⟨rfl, rfl⟩

theorem elements_unique {first : Bool} {xs ys : List Outline} {s rest rest' : Bytes}
    (one : SpellsElements first xs s rest) (two : SpellsElements first ys s rest') :
    xs = ys ∧ rest = rest' := by
  match xs, ys, one, two with
  | [], [], closed, closed' => exact ⟨rfl, (List.cons.inj (Eq.trans (Eq.symm closed) closed')).2⟩
  | [], _ :: _, closed, ⟨_, _, led, value, _⟩ => exact absurd closed (led.not_bracket value rest)
  | _ :: _, [], ⟨_, _, led, value, _⟩, closed => exact absurd closed (led.not_bracket value rest')
  | x :: xs, y :: ys, ⟨r, t, led, value, more⟩, ⟨r', t', led', value', more'⟩ =>
    obtain rfl := led.unique led'
    obtain ⟨rfl, rfl⟩ := Spells.unique value value' (stops_elements more) (stops_elements more')
    obtain ⟨rfl, rfl⟩ := elements_unique more more'
    exact ⟨rfl, rfl⟩

theorem members_unique {first : Bool} {ms ns : List (Bytes × Outline)} {s rest rest' : Bytes}
    (one : SpellsMembers first ms s rest) (two : SpellsMembers first ns s rest') :
    ms = ns ∧ rest = rest' := by
  match ms, ns, one, two with
  | [], [], closed, closed' => exact ⟨rfl, (List.cons.inj (Eq.trans (Eq.symm closed) closed')).2⟩
  | [], (_, _) :: _, closed, ⟨_, _, _, led, key, _⟩ => exact absurd closed (led.not_brace key rest)
  | (_, _) :: _, [], ⟨_, _, _, led, key, _⟩, closed => exact absurd closed (led.not_brace key rest')
  | (k, x) :: ms, (l, y) :: ns, ⟨r, q, t, led, key, value, more⟩,
      ⟨r', q', t', led', key', value', more'⟩ =>
    obtain rfl := led.unique led'
    obtain ⟨rfl, rfl⟩ := key.unique key'
    obtain ⟨rfl, rfl⟩ := Spells.unique value value' (stops_members more) (stops_members more')
    obtain ⟨rfl, rfl⟩ := members_unique more more'
    exact ⟨rfl, rfl⟩

end

theorem IsDocument.unique {x y : Outline} {document : Bytes} (one : x.IsDocument document)
    (two : y.IsDocument document) : x = y := by
  obtain ⟨rest, spells, blank⟩ := one
  obtain ⟨rest', spells', blank'⟩ := two
  exact (spells.unique spells' (stops_of_skipSpace blank stops_nil)
    (stops_of_skipSpace blank' stops_nil)).1

def comma (gap : Bytes) : Bool → Bytes
  | true => []
  | false => gap ++ [octet ',']

def spacedKey (gap k : Bytes) : Bytes :=
  gap ++ octet '"' :: (k ++ octet '"' :: (gap ++ [octet ':']))

mutual

def spaced (gap : Bytes) : Outline → Bytes
  | scalar octets => gap ++ octets
  | array xs => gap ++ octet '[' :: spacedElements gap true xs
  | object ms => gap ++ octet '\x7b' :: spacedMembers gap true ms

def spacedElements (gap : Bytes) : Bool → List Outline → Bytes
  | _, [] => gap ++ [octet ']']
  | first, x :: xs => comma gap first ++ (spaced gap x ++ spacedElements gap false xs)

def spacedMembers (gap : Bytes) : Bool → List (Bytes × Outline) → Bytes
  | _, [] => gap ++ [octet '\x7d']
  | first, (k, x) :: ms =>
    comma gap first ++ (spacedKey gap k ++ (spaced gap x ++ spacedMembers gap false ms))

end

section

variable {gap : Bytes} (blank : ∀ b ∈ gap, isSpace b)

include blank

theorem skipSpace_gap {b : UInt8} (visible : isSpace b = false) (s : Bytes) :
    skipSpace (gap ++ b :: s) = b :: s := by
  rw [skipSpace_blanks blank, skipSpace_visible visible]

theorem led_comma (first : Bool) (s : Bytes) : Led first (comma gap first ++ s) s := by
  cases first with
  | true => rfl
  | false =>
    rw [comma, List.append_assoc]
    exact skipSpace_gap blank (by decide) s

theorem spellsKey_spaced {k : Bytes} (inside : Inside k) (s : Bytes) :
    SpellsKey k (spacedKey gap k ++ s) s := by
  refine ⟨inside, gap ++ octet ':' :: s, ?_, skipSpace_gap blank (by decide) s⟩
  simp only [spacedKey, List.append_assoc, List.cons_append, List.nil_append]
  exact skipSpace_gap blank (by decide) _

mutual

theorem Spells.spaced {x : Outline} {s rest : Bytes} (spells : x.Spells s rest) (t : Bytes) :
    x.Spells (x.spaced gap ++ t) t := by
  match x, spells with
  | scalar octets, ⟨whole, _⟩ =>
    obtain ⟨b, p, rfl, plain, -⟩ := scalar_begins whole
    refine ⟨whole, ?_⟩
    rw [Outline.spaced, List.append_assoc]
    exact skipSpace_gap blank plain.1 _
  | array xs, ⟨_, _, elements⟩ =>
    refine ⟨_, ?_, elements_spaced elements t⟩
    rw [Outline.spaced, List.append_assoc]
    exact skipSpace_gap blank (by decide) _
  | object ms, ⟨_, _, members⟩ =>
    refine ⟨_, ?_, members_spaced members t⟩
    rw [Outline.spaced, List.append_assoc]
    exact skipSpace_gap blank (by decide) _

theorem elements_spaced {first : Bool} {xs : List Outline} {s rest : Bytes}
    (spells : SpellsElements first xs s rest) (t : Bytes) :
    SpellsElements first xs (spacedElements gap first xs ++ t) t := by
  match xs, spells with
  | [], _ =>
    rw [spacedElements, List.append_assoc]
    exact skipSpace_gap blank (by decide) t
  | x :: xs, ⟨_, _, _, value, more⟩ =>
    rw [spacedElements, List.append_assoc, List.append_assoc]
    exact ⟨_, _, led_comma blank first _, Spells.spaced value _, elements_spaced more t⟩

theorem members_spaced {first : Bool} {ms : List (Bytes × Outline)} {s rest : Bytes}
    (spells : SpellsMembers first ms s rest) (t : Bytes) :
    SpellsMembers first ms (spacedMembers gap first ms ++ t) t := by
  match ms, spells with
  | [], _ =>
    rw [spacedMembers, List.append_assoc]
    exact skipSpace_gap blank (by decide) t
  | (k, x) :: ms, ⟨_, _, _, _, ⟨inside, _⟩, value, more⟩ =>
    rw [spacedMembers, List.append_assoc, List.append_assoc, List.append_assoc]
    exact ⟨_, _, _, led_comma blank first _, spellsKey_spaced blank inside _,
      Spells.spaced value _, members_spaced more t⟩

end

theorem elements_of_whole {xs : List Outline} (whole : ∀ x ∈ xs, x.Whole) (first : Bool)
    (t : Bytes) : SpellsElements first xs (spacedElements gap first xs ++ t) t := by
  induction xs generalizing first with
  | nil =>
    rw [spacedElements, List.append_assoc]
    exact skipSpace_gap blank (by decide) t
  | cons x xs ih =>
    obtain ⟨⟨_, _, spells⟩, others⟩ := List.forall_mem_cons.1 whole
    rw [spacedElements, List.append_assoc, List.append_assoc]
    exact ⟨_, _, led_comma blank first _, spells.spaced blank _, ih others false⟩

theorem members_of_whole {ms : List (Bytes × Outline)}
    (whole : ∀ m ∈ ms, Inside m.1 ∧ m.2.Whole) (first : Bool) (t : Bytes) :
    SpellsMembers first ms (spacedMembers gap first ms ++ t) t := by
  induction ms generalizing first with
  | nil =>
    rw [spacedMembers, List.append_assoc]
    exact skipSpace_gap blank (by decide) t
  | cons m ms ih =>
    obtain ⟨⟨inside, _, _, spells⟩, others⟩ := List.forall_mem_cons.1 whole
    rw [spacedMembers, List.append_assoc, List.append_assoc, List.append_assoc]
    exact ⟨_, _, _, led_comma blank first _, spellsKey_spaced blank inside _,
      spells.spaced blank _, ih others false⟩

theorem isDocument_array {xs : List Outline} (whole : ∀ x ∈ xs, x.Whole) :
    (array xs).IsDocument ((array xs).spaced gap) := by
  refine ⟨[], ⟨_, ?_, elements_of_whole blank whole true []⟩, rfl⟩
  rw [Outline.spaced, List.append_nil]
  exact skipSpace_gap blank (by decide) _

theorem isDocument_object {ms : List (Bytes × Outline)}
    (whole : ∀ m ∈ ms, Inside m.1 ∧ m.2.Whole) :
    (object ms).IsDocument ((object ms).spaced gap) := by
  refine ⟨[], ⟨_, ?_, members_of_whole blank whole true []⟩, rfl⟩
  rw [Outline.spaced, List.append_nil]
  exact skipSpace_gap blank (by decide) _

end

theorem whole_of_elements {first : Bool} {xs : List Outline} {s rest : Bytes}
    (spells : SpellsElements first xs s rest) : ∀ x ∈ xs, x.Whole := by
  induction xs generalizing first s with
  | nil => exact nofun
  | cons x xs ih =>
    obtain ⟨_, _, -, value, more⟩ := spells
    exact List.forall_mem_cons.2 ⟨⟨_, _, value⟩, ih more⟩

theorem whole_of_members {first : Bool} {ms : List (Bytes × Outline)} {s rest : Bytes}
    (spells : SpellsMembers first ms s rest) : ∀ m ∈ ms, Inside m.1 ∧ m.2.Whole := by
  induction ms generalizing first s with
  | nil => exact nofun
  | cons m ms ih =>
    obtain ⟨_, _, _, -, ⟨inside, -⟩, value, more⟩ := spells
    exact List.forall_mem_cons.2 ⟨⟨inside, _, _, value⟩, ih more⟩

end Outline

end Lifecycle
