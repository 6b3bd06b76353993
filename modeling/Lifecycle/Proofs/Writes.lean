import Lifecycle.Proofs.RoundTrip
import Lifecycle.Proofs.Routes
import Mathlib.Data.List.Dedup
import Mathlib.Data.List.Induction

/-! Documents that are written key by key. Main statement: a document is the finite map of the last
values written, with its keys in ascending order at every level of its text; so the order in which
different keys are written does not matter, and where all numbers are integers the text alone
decides which document it is. -/

namespace Lifecycle

namespace Members

variable {α : Type} {m m' : Members α} {key : String} {value : α}

theorem Ascending.nodup (ascending : m.Ascending) : m.keys.Nodup := by
  refine List.Pairwise.imp (fun less same => ?_) ascending
  exact String.lt_irrefl _ (same ▸ less)

theorem get?_eq_none_iff : m.get? key = none ↔ key ∉ m.keys := by
  induction m with
  | nil => simp [get?, keys]
  | cons x m ih =>
    obtain ⟨k, v⟩ := x
    by_cases same : key = k
    · simp [get?, keys, same]
    · simpa [get?, keys, same] using ih

theorem get?_eq_some_iff (ascending : m.Ascending) :
    m.get? key = some value ↔ (key, value) ∈ m := by
  refine ⟨mem_of_get?, fun mem => ?_⟩
  have keyed : key ∈ m.keys := List.mem_map_of_mem mem
  obtain ⟨other, found⟩ := Option.ne_none_iff_exists'.1 (mt get?_eq_none_iff.1 (not_not.2 keyed))
  have same := List.inj_on_of_nodup_map ascending.nodup mem (mem_of_get? found) rfl
  rw [found, (Prod.mk.inj same).2]

theorem ext (ascending : m.Ascending) (ascending' : m'.Ascending)
    (same : ∀ key, m.get? key = m'.get? key) : m = m' := by
  have perm : m.Perm m' := by
    have nodup : m.Nodup := .of_map _ ascending.nodup
    have nodup' : m'.Nodup := .of_map _ ascending'.nodup
    refine (List.perm_ext_iff_of_nodup nodup nodup').2 fun (key, value) => ?_
    rw [← get?_eq_some_iff ascending, ← get?_eq_some_iff ascending', same]
  rw [Ascending, keys, List.pairwise_map] at ascending ascending'
  exact perm.eq_of_pairwise (fun x y _ _ less more => absurd more (String.lt_asymm less)) ascending
    ascending'

end Members

namespace Json

def memberChars (m : String × List Char) : List Char := stringChars m.1 ++ ':' :: m.2

/-- Texts in which the keys of every object ascend. -/
inductive Sorted : List Char → Prop
  | scalar {v : Json} (bare : v.depth = 0) : Sorted v.chars
  | array {elements : List (List Char)} (inside : ∀ x ∈ elements, Sorted x) :
      Sorted ('[' :: ([','].intercalate elements ++ [']']))
  | object {members : Members (List Char)} (ascending : members.Ascending)
      (inside : ∀ m ∈ members, Sorted m.2) :
      Sorted ('\x7b' :: ([','].intercalate (members.map memberChars) ++ ['\x7d']))

theorem intercalate_cons {α : Type} (sep x : List α) (xs : List (List α)) :
    sep.intercalate (x :: xs) = x ++ xs.flatMap (sep ++ ·) := by
  induction xs generalizing x with
  | nil => simp
  | cons y xs ih => rw [List.intercalate_cons_cons, ih, List.flatMap_cons, List.append_assoc,
      List.append_assoc]

theorem elementsChars_eq (xs : List Json) :
    elementsChars xs = [','].intercalate (xs.map chars) ++ [']'] := by
  have more (xs : List Json) :
      moreElementsChars xs = (xs.map chars).flatMap ([','] ++ ·) ++ [']'] := by
    induction xs with
    | nil => rfl
    | cons x xs ih => simp [moreElementsChars, ih]
  cases xs with
  | nil => rfl
  | cons x xs => rw [elementsChars, more, List.map_cons, intercalate_cons, List.append_assoc]

def memberTexts (ms : List (String × Json)) : Members (List Char) := ms.map (Prod.map id chars)

theorem membersChars_eq (ms : List (String × Json)) :
    membersChars ms = [','].intercalate ((memberTexts ms).map memberChars) ++ ['\x7d'] := by
  have more (ms : List (String × Json)) : moreMembersChars ms =
      ((memberTexts ms).map memberChars).flatMap ([','] ++ ·) ++ ['\x7d'] := by
    induction ms with
    | nil => rfl
    | cons m ms ih => simp [moreMembersChars, memberTexts, memberChars, ih]
  cases ms with
  | nil => rfl
  | cons m ms =>
    have first : membersChars (m :: ms) = memberChars (m.1, m.2.chars) ++ moreMembersChars ms := rfl
    have texts : (memberTexts (m :: ms)).map memberChars =
      memberChars (m.1, m.2.chars) :: (memberTexts ms).map memberChars := rfl
    rw [first, more, texts, intercalate_cons, List.append_assoc]

mutual

theorem sorted_chars {v : Json} (ordered : v.Ordered) : Sorted v.chars := by
  match v with
  | .null | .bool _ | .number _ | .string _ => exact .scalar rfl
  | .array xs =>
    rw [chars, elementsChars_eq]
    exact .array (sorted_elements ordered)
  | .object ms =>
    have keys : (memberTexts ms).keys = Members.keys ms := List.map_map
    have ascending : (memberTexts ms).Ascending := by
      rw [Members.Ascending, keys]
      exact ordered.1
    rw [chars, membersChars_eq]
    exact .object ascending (sorted_members ordered.2)

theorem sorted_elements {xs : List Json} (ordered : OrderedElements xs) :
    ∀ x ∈ xs.map chars, Sorted x := by
  match xs with
  | [] => exact nofun
  | x :: xs =>
    exact List.forall_mem_cons.2 ⟨sorted_chars ordered.1, sorted_elements ordered.2⟩

theorem sorted_members {ms : List (String × Json)} (ordered : OrderedMembers ms) :
    ∀ m ∈ memberTexts ms, Sorted m.2 := by
  match ms with
  | [] => exact nofun
  | (k, x) :: ms =>
    exact List.forall_mem_cons.2 ⟨sorted_chars ordered.1, sorted_members ordered.2⟩

end

mutual

theorem same_iff {v : Json} (integral : v.Integral) {w : Json} : v.same w ↔ v = w := by
  match v with
  | .null | .bool _ | .string _ => cases w <;> simp [same]
  | .number (.float x) => cases integral
  | .number (.integer m) =>
    cases w with
    | number n => cases n <;> simp [same, Number.same]
    | _ => simp [same]
  | .array xs =>
    cases w with
    | array ys => rw [same, sameElements_iff integral, array.injEq]
    | _ => simp [same]
  | .object ms =>
    cases w with
    | object ns => rw [same, sameMembers_iff integral, object.injEq]
    | _ => simp [same]

theorem sameElements_iff {xs : List Json} (integral : IntegralElements xs) {ys : List Json} :
    sameElements xs ys ↔ xs = ys := by
  match xs, ys with
  | [], ys => cases ys <;> simp [sameElements]
  | _ :: _, [] => simp [sameElements]
  | x :: xs, y :: ys =>
    rw [sameElements, Bool.and_eq_true, same_iff integral.1, sameElements_iff integral.2,
      List.cons.injEq]

theorem sameMembers_iff {ms : List (String × Json)} (integral : IntegralMembers ms)
    {ns : List (String × Json)} : sameMembers ms ns ↔ ms = ns := by
  match ms, ns with
  | [], ns => cases ns <;> simp [sameMembers]
  | _ :: _, [] => simp [sameMembers]
  | (k, x) :: ms, (l, y) :: ns =>
    rw [sameMembers, Bool.and_eq_true, Bool.and_eq_true, beq_iff_eq, same_iff integral.1,
      sameMembers_iff integral.2, List.cons.injEq, Prod.mk.injEq]

end

theorem eq_of_text {v w : Json} (ordered : v.Ordered) (integral : v.Integral)
    (ordered' : w.Ordered) (integral' : w.Integral) (same : v.text = w.text) : v = w := by
  have read := (Reader.gives_value ordered integral (max v.depth w.depth)).alone
  have read' := (Reader.gives_value ordered' integral' (max v.depth w.depth)).alone
  have octets : v.bytes = w.bytes := congrArg Text.Utf8.encode (String.ofList_injective same)
  rw [if_pos (Nat.le_max_left ..), octets, read', if_pos (Nat.le_max_right ..)] at read
  cases read
  rfl

end Json

namespace Args

variable {a : Args} {ws : List (String × Json)} {key : String} {value : Json}

def write (a : Args) (ws : List (String × Json)) : Args :=
  ws.foldl (fun a w => a.insert w.1 w.2) a

theorem write_snoc : a.write (ws ++ [(key, value)]) = (a.write ws).insert key value :=
  List.foldl_append

theorem get?_write (a : Args) (ws : List (String × Json)) (key : String) :
    (a.write ws).get? key = (ws.reverse.lookup key).or (a.get? key) := by
  induction ws using List.reverseRecOn with
  | nil => rfl
  | append_singleton ws w ih =>
    obtain ⟨k, v⟩ := w
    rw [write_snoc, get?_insert, ih, List.reverse_append, List.reverse_singleton,
      List.singleton_append, List.lookup_cons]
    by_cases same : key = k
    · simp [same]
    · simp [same, beq_eq_false_iff_ne.2 same]

theorem mem_keys_write : key ∈ (a.write ws).keys ↔ key ∈ a.keys ++ ws.map (·.1) := by
  induction ws using List.reverseRecOn with
  | nil => simp [write]
  | append_singleton ws w ih =>
    rw [write_snoc, keys, insert, Members.mem_keys_insert, ← keys, ih]
    simp only [List.map_append, List.mem_append, List.map_cons, List.map_nil, List.mem_singleton]
    tauto

theorem ascending_write (ascending : a.members.Ascending) (ws : List (String × Json)) :
    (a.write ws).members.Ascending := by
  induction ws using List.reverseRecOn with
  | nil => exact ascending
  | append_singleton ws w ih =>
    rw [write_snoc]
    exact Members.ascending_insert ih

theorem ordered_write (start : a.toJson.Ordered) (values : ∀ w ∈ ws, w.2.Ordered) :
    (a.write ws).toJson.Ordered := by
  refine ⟨ascending_write start.1 ws, ?_⟩
  induction ws using List.reverseRecOn with
  | nil => exact start.2
  | append_singleton ws w ih =>
    obtain ⟨others, last⟩ := List.forall_mem_append.1 values
    rw [write_snoc]
    exact Outline.orderedMembers_insert (last w (List.mem_singleton_self w)) (ih others)

theorem length_write (ascending : a.members.Ascending) (ws : List (String × Json)) :
    (a.write ws).length = (a.keys ++ ws.map (·.1)).dedup.length := by
  have nodup : (a.write ws).keys.Nodup := (ascending_write ascending ws).nodup
  have perm : (a.write ws).keys.Perm (a.keys ++ ws.map (·.1)).dedup :=
    (List.perm_ext_iff_of_nodup nodup (List.nodup_dedup _)).2 fun key => by
      rw [mem_keys_write, List.mem_dedup]
  rw [← perm.length_eq]
  exact (List.length_map _).symm

theorem ext_get? {b : Args} (ascending : a.members.Ascending) (ascending' : b.members.Ascending)
    (same : ∀ key, a.get? key = b.get? key) : a = b :=
  congrArg Args.mk (Members.ext ascending ascending' same)

theorem insert_comm (ascending : a.members.Ascending) {k l : String} (other : k ≠ l) (v w : Json) :
    (a.insert k v).insert l w = (a.insert l w).insert k v := by
  have put {k : String} {v : Json} {a : Args} (ascending : a.members.Ascending) :
      (a.insert k v).members.Ascending := Members.ascending_insert ascending
  refine ext_get? (put (put ascending)) (put (put ascending)) fun key => ?_
  simp only [get?_insert]
  by_cases second : key = l
  · have first : key ≠ k := fun first => other (first.symm.trans second)
    rw [if_pos second, if_neg first, if_pos second]
  · rw [if_neg second, if_neg second]

theorem write_comm (ascending : a.members.Ascending) {k l : String} (other : k ≠ l) (v w : Json)
    (before after : List (String × Json)) :
    a.write (before ++ (k, v) :: (l, w) :: after) =
      a.write (before ++ (l, w) :: (k, v) :: after) := by
  rw [write, write, List.foldl_append, List.foldl_append]
  exact congrArg (after.foldl _) (insert_comm (ascending_write ascending before) other v w)

theorem flag_iff : a.flag key ↔ a.get? key = some (.bool true) := by
  unfold flag
  split <;> simp_all

theorem text?_eq_some_iff {s : String} : a.text? key = some s ↔ a.get? key = some (.string s) := by
  unfold text?
  split <;> simp_all

/-- What a document is after some writes: a finite map with one text. -/
structure FiniteMap (a : Args) (ws : List (String × Json)) : Prop where
  value {key : String} : (a.write ws).get? key = (ws.reverse.lookup key).or (a.get? key)
  flag {key : String} : (a.write ws).flag key ↔ (a.write ws).get? key = some (.bool true)
  string {key s : String} :
    (a.write ws).text? key = some s ↔ (a.write ws).get? key = some (.string s)
  length : (a.write ws).length = (a.keys ++ ws.map (·.1)).dedup.length
  keys : (a.write ws).keys.Pairwise (· < ·)
  ordered : (a.write ws).toJson.Ordered
  sorted : Json.Sorted (a.write ws).text.toList
  ext {b : Args} {vs : List (String × Json)} : b.toJson.Ordered →
    (∀ key, (a.write ws).get? key = (b.write vs).get? key) → a.write ws = b.write vs
  /-- Where all numbers are integers, documents that are written anyhow are equal, and the same, if
  they have one text. -/
  text {b : Args} {vs : List (String × Json)} : b.toJson.Ordered → (∀ w ∈ vs, w.2.Ordered) →
    (a.write ws).toJson.Integral → (b.write vs).toJson.Integral →
    (a.write ws = b.write vs ↔ (a.write ws).text = (b.write vs).text) ∧
      ((a.write ws).same (b.write vs) ↔ (a.write ws).text = (b.write vs).text)
  comm {before after : List (String × Json)} {k l : String} {v w : Json} :
    ws = before ++ (k, v) :: (l, w) :: after → k ≠ l →
    a.write (before ++ (l, w) :: (k, v) :: after) = a.write ws
  converted : ofJson (a.write ws).toJson = .ok (a.write ws)
  decoded : (a.write ws).toJson.Integral → (a.write ws).toJson.depth ≤ 127 →
    reader.decode (Text.Utf8.encode (a.write ws).text.toList) = .ok (a.write ws) ∧
      Reader.value.decode (Text.Utf8.encode (a.write ws).text.toList) = .ok (a.write ws).toJson

theorem finite_map_written (start : a.toJson.Ordered) (values : ∀ w ∈ ws, w.2.Ordered) :
    FiniteMap a ws where
  value := get?_write ..
  flag := flag_iff
  string := text?_eq_some_iff
  length := length_write start.1 ws
  keys := ascending_write start.1 ws
  ordered := ordered_write start values
  sorted := by
    rw [text, Json.text, String.toList_ofList]
    exact Json.sorted_chars (ordered_write start values)
  ext start' same := ext_get? (ascending_write start.1 _) (ascending_write start'.1 _) same
  text {b vs} start' values' integral integral' := by
    have equal : a.write ws = b.write vs ↔ (a.write ws).text = (b.write vs).text := by
      refine ⟨congrArg Args.text, fun same => ?_⟩
      have objects := Json.eq_of_text (ordered_write start values) integral
        (ordered_write start' values') integral' same
      exact congrArg Args.mk (Json.object.inj objects)
    refine ⟨equal, Iff.trans ?_ equal⟩
    rw [same, Json.sameMembers_iff integral]
    exact ⟨congrArg Args.mk, congrArg Args.members⟩
  comm written other := by rw [written, write_comm start.1 other]
  converted := ofJson_toJson _
  decoded integral fits := by
    have ordered := ordered_write start values
    rw [text, Json.text, String.toList_ofList]
    exact ⟨(Args.gives ordered integral 127).decode.trans (if_pos fits),
      (Reader.gives_value ordered integral 127).decode.trans (if_pos fits)⟩

def atFirst : Args := ⟨[("config", .integer 1)]⟩

def replacing : List (String × Json) :=
  [("\n", .bool true), ("stop", .array [.integer (-1)]), ("config", .string "é"),
    ("\n", .object [("b", .null)])]

theorem finite_map_written_of_replacing :
    (atFirst.write replacing).get? "config" = some (.string "é") ∧
      (atFirst.write replacing).length = 3 ∧
      (atFirst.write replacing).text ≠ (atFirst.write replacing.reverse).text ∧
      reader.decode (Text.Utf8.encode (atFirst.write replacing).text.toList) =
        .ok (atFirst.write replacing) := by
  have start : atFirst.toJson.Ordered := ⟨List.pairwise_singleton _ _, trivial, trivial⟩
  have values : ∀ w ∈ replacing, w.2.Ordered := by
    simp only [replacing, List.forall_mem_cons]
    exact ⟨trivial, ⟨trivial, trivial⟩, trivial, ⟨List.pairwise_singleton _ _, trivial, trivial⟩,
      nofun⟩
  have values' : ∀ w ∈ replacing.reverse, w.2.Ordered := fun w mem =>
    values w (List.mem_reverse.1 mem)
  have least : -9223372036854775808 ≤ (-1 : Int) ∧ (-1 : Int) < 18446744073709551616 := by decide
  have integral : (atFirst.write replacing).toJson.Integral :=
    ⟨⟨trivial, trivial⟩, trivial, ⟨least, trivial⟩, trivial⟩
  have integral' : (atFirst.write replacing.reverse).toJson.Integral :=
    ⟨trivial, trivial, ⟨least, trivial⟩, trivial⟩
  have map := finite_map_written start values
  refine ⟨map.value, map.length.trans (by decide), ?_, (map.decoded integral (by decide)).1⟩
  intro same
  have equal := (map.text start values' integral integral').1.2 same
  have first : (atFirst.write replacing).get? "\n" = some (.object [("b", .null)]) := map.value
  rw [equal] at first
  cases first

end Args

end Lifecycle
