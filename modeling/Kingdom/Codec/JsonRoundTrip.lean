import Kingdom.Codec.JsonText

/-!
# Printing and parsing are inverse

`parse` reads back what `dumpWith` prints, at any indentation and for every
value, up to the one thing the text does not record: a non-negative number is
always read as unsigned.

* `get?_mkObj` — the fields of an object.
* `WF` — the values a parser can return: sorted objects, printable doubles.
* `norm` — a value as it comes back from its text; `get?_norm`, `str?_norm` and the
  others say that nothing read from it changes.
* `Printable` — the values that have a text, `exists_dump`.
* `parseValue_dumpWith`, `parse_dump` — the round trip.
* `dump_inj` — two values with the same text agree up to `norm`.
* `wf_of_parse` — what the parser accepts is well formed.
-/

namespace Codec

open Alphabet

namespace Json

variable {α : Type}

/-! ## Sorted fields -/

/-- The keys of a field list are in strictly increasing order. -/
def Sorted (fs : List (Key × Json α)) : Prop := fs.Pairwise fun p q => p.1 < q.1

theorem key_trichotomy {k l : Key} (h1 : k ≠ l) (h2 : ¬ k < l) : l < k := by
  have hle : l ≤ k := by simpa using h2
  rcases List.le_iff_lt_or_eq.mp hle with h | h
  · exact h
  · exact absurd h.symm h1

/-- A key above all others is set at the end. -/
theorem insertField_append {k : Key} (v : Json α) {fs : List (Key × Json α)}
    (h : ∀ p ∈ fs, p.1 < k) : insertField k v fs = fs ++ [(k, v)] := by
  induction fs with
  | nil => rfl
  | cons p fs ih =>
      obtain ⟨l, u⟩ := p
      have hl : l < k := h (l, u) (by simp)
      have hne : k ≠ l := fun he => List.lt_irrefl l (he ▸ hl)
      have hnl : ¬ k < l := fun hk => List.lt_irrefl l (List.lt_trans hl hk)
      rw [insertField, if_neg hne, if_neg hnl, ih fun p hp => h p (by simp [hp])]
      rfl

theorem mem_insertField {k : Key} {v : Json α} {fs : List (Key × Json α)} {p : Key × Json α}
    (h : p ∈ insertField k v fs) : p = (k, v) ∨ p ∈ fs := by
  induction fs with
  | nil => simpa [insertField] using h
  | cons q fs ih =>
      obtain ⟨l, u⟩ := q
      simp only [insertField] at h
      split_ifs at h
      · rcases List.mem_cons.mp h with h | h
        · exact .inl h
        · exact .inr (List.mem_cons_of_mem _ h)
      · rcases List.mem_cons.mp h with h | h
        · exact .inl h
        · exact .inr h
      · rcases List.mem_cons.mp h with h | h
        · exact .inr (h ▸ List.mem_cons_self)
        · exact (ih h).imp_right (List.mem_cons_of_mem _)

theorem sorted_insertField (k : Key) (v : Json α) {fs : List (Key × Json α)} (h : Sorted fs) :
    Sorted (insertField k v fs) := by
  induction fs with
  | nil => simp [insertField, Sorted]
  | cons q fs ih =>
      obtain ⟨l, u⟩ := q
      obtain ⟨hl, hfs⟩ := List.pairwise_cons.mp h
      simp only [insertField]
      split_ifs with h1 h2
      · exact List.pairwise_cons.mpr ⟨fun p hp => h1 ▸ hl p hp, hfs⟩
      · refine List.pairwise_cons.mpr ⟨fun p hp => ?_, h⟩
        rcases List.mem_cons.mp hp with rfl | hp
        · exact h2
        · exact List.lt_trans h2 (hl p hp)
      · refine List.pairwise_cons.mpr ⟨fun p hp => ?_, ih hfs⟩
        rcases mem_insertField hp with rfl | hp
        · exact key_trichotomy h1 h2
        · exact hl p hp

/-- Setting a field is seen under its own key and nowhere else. -/
theorem lookup_insertField (k l : Key) (v : Json α) (fs : List (Key × Json α)) :
    lookup l (insertField k v fs) = if k = l then some v else lookup l fs := by
  induction fs with
  | nil => simp [insertField, lookup]
  | cons q fs ih =>
      obtain ⟨m, u⟩ := q
      by_cases h1 : k = m
      · subst h1
        by_cases hkl : k = l <;> simp [insertField, lookup, hkl]
      · by_cases h2 : k < m
        · simp [insertField, lookup, h1, h2]
        · simp only [insertField, if_neg h1, if_neg h2, lookup, ih]
          by_cases hml : m = l
          · have hkl : k ≠ l := fun he => h1 (he.trans hml.symm)
            simp [hml, hkl]
          · simp [hml]

/-- Setting a field again forgets the first value. -/
theorem insertField_insertField (k : Key) (u v : Json α) (fs : List (Key × Json α)) :
    insertField k v (insertField k u fs) = insertField k v fs := by
  induction fs with
  | nil => simp [insertField]
  | cons q fs ih =>
      obtain ⟨l, w⟩ := q
      by_cases h1 : k = l
      · subst h1
        simp [insertField]
      · by_cases h2 : k < l
        · simp [insertField, h1, h2]
        · simp only [insertField, if_neg h1, if_neg h2, ih]

/-- A field that is taken out is gone, and the others stay. -/
theorem lookup_filter_ne (k l : Key) (fs : List (Key × Json α)) :
    lookup l (fs.filter fun p => p.1 ≠ k) = if l = k then none else lookup l fs := by
  induction fs with
  | nil => simp [lookup]
  | cons q fs ih =>
      obtain ⟨m, u⟩ := q
      by_cases hm : m = k
      · subst hm
        rw [List.filter_cons_of_neg (by simp), ih]
        by_cases hl : l = m
        · simp [hl]
        · have hml : m ≠ l := fun he => hl he.symm
          simp [lookup, hl, hml]
      · rw [List.filter_cons_of_pos (by simpa using hm), lookup, lookup, ih]
        by_cases hl : m = l
        · subst hl
          simp [hm]
        · simp [hl]

/-- The last field of a name counts. -/
theorem lookup_ofFields (k : Key) (fs : List (Key × Json α)) :
    lookup k (ofFields fs) = lookup k fs.reverse := by
  induction fs using List.reverseRecOn with
  | nil => rfl
  | append_singleton fs p ih =>
      rw [ofFields] at ih ⊢
      rw [List.foldl_append, List.foldl_cons, List.foldl_nil, lookup_insertField, ih]
      rw [List.reverse_append, List.reverse_singleton, List.singleton_append, lookup]

theorem get?_mkObj (k : Key) (fs : List (String × Json α)) :
    (mkObj fs).get? k = lookup k (fs.map fun p => (bytes p.1, p.2)).reverse := by
  rw [mkObj]
  exact lookup_ofFields k _

@[simp] theorem isObject_mkObj (fs : List (String × Json α)) : (mkObj fs).isObject = true := by
  rw [mkObj]
  rfl

theorem get?_set {j v : Json α} (hj : j.isObject = true) (k l : Key) :
    (j.set k v).get? l = if k = l then some v else j.get? l := by
  cases j with
  | obj fs => exact lookup_insertField k l v fs
  | _ => cases hj

theorem get?_erase (j : Json α) (k l : Key) :
    (j.erase k).get? l = if l = k then none else j.get? l := by
  cases j with
  | obj fs => exact lookup_filter_ne k l fs
  | _ => simp [erase, get?]

theorem set_set (j : Json α) (k : Key) (u v : Json α) : (j.set k u).set k v = j.set k v := by
  cases j with
  | obj fs => exact congrArg Json.obj (insertField_insertField k u v fs)
  | _ => rfl

/-- Setting the last field of an initializer list. -/
theorem set_mkObj (fs : List (String × Json α)) (k : String) (u v : Json α) :
    (mkObj (fs ++ [(k, u)])).set (bytes k) v = mkObj (fs ++ [(k, v)]) := by
  simp only [mkObj, ofFields, set, List.map_append, List.map_cons, List.map_nil, List.foldl_append,
    List.foldl_cons, List.foldl_nil, insertField_insertField]

theorem isObject_of_get? {j v : Json α} {k : Key} (h : j.get? k = some v) : j.isObject = true := by
  cases j with
  | obj fs => rfl
  | _ => cases h

theorem isObject_set {j v : Json α} {k : Key} (hj : j.isObject = true) :
    (j.set k v).isObject = true := by
  cases j with
  | obj fs => rfl
  | _ => cases hj

theorem sorted_ofFields (fs : List (Key × Json α)) : Sorted (ofFields fs) := by
  suffices h : ∀ acc, Sorted acc →
      Sorted (fs.foldl (fun acc p => insertField p.1 p.2 acc) acc) from h [] List.Pairwise.nil
  induction fs with
  | nil => exact fun acc h => h
  | cons p fs ih => exact fun acc h => ih _ (sorted_insertField _ _ h)

theorem mem_ofFields {fs : List (Key × Json α)} {p : Key × Json α} (h : p ∈ ofFields fs) :
    p ∈ fs := by
  suffices hg : ∀ acc, p ∈ fs.foldl (fun acc p => insertField p.1 p.2 acc) acc →
      p ∈ acc ∨ p ∈ fs by
    simpa using hg [] h
  clear h
  induction fs with
  | nil => exact fun acc h => .inl h
  | cons q fs ih =>
      intro acc hacc
      rcases ih _ hacc with h | h
      · rcases mem_insertField h with rfl | h
        · exact .inr List.mem_cons_self
        · exact .inl h
      · exact .inr (List.mem_cons_of_mem _ h)

/-! ## Well-formed values and what comes back -/

section Norm

mutual

/-- A value as it is read back: non-negative numbers are unsigned. -/
def norm : Json α → Json α
  | .integer i => if i.toInt < 0 then .integer i else .unsigned i.toUInt64
  | .arr xs => .arr (normElems xs)
  | .obj fs => .obj (normFields fs)
  | .null => .null
  | .bool b => .bool b
  | .unsigned n => .unsigned n
  | .float t => .float t
  | .str s => .str s

def normElems : List (Json α) → List (Json α)
  | [] => []
  | x :: xs => norm x :: normElems xs

def normFields : List (Key × Json α) → List (Key × Json α)
  | [] => []
  | (k, v) :: fs => (k, norm v) :: normFields fs

end

variable [FloatFormat]

mutual

/-- The values a parser returns: objects are sorted and doubles are named by the
text they print as. -/
def WF : Json α → Prop
  | .float t => FloatFormat.canon t = some t
  | .arr xs => WFElems xs
  | .obj fs => Sorted fs ∧ WFFields fs
  | .null => True
  | .bool _ => True
  | .unsigned _ => True
  | .integer _ => True
  | .str _ => True

def WFElems : List (Json α) → Prop
  | [] => True
  | x :: xs => WF x ∧ WFElems xs

def WFFields : List (Key × Json α) → Prop
  | [] => True
  | (_, v) :: fs => WF v ∧ WFFields fs

end

end Norm

theorem normElems_eq_map (xs : List (Json α)) : normElems xs = xs.map norm := by
  induction xs with
  | nil => rfl
  | cons x xs ih => rw [normElems, ih, List.map_cons]

mutual

/-- Nothing more changes when a value is read back again. -/
theorem norm_norm : ∀ j : Json α, j.norm.norm = j.norm
  | .null => rfl
  | .bool _ => rfl
  | .unsigned _ => rfl
  | .integer i => by
      simp only [norm]
      split_ifs with h
      · simp only [norm, if_pos h]
      · rfl
  | .float _ => rfl
  | .str _ => rfl
  | .arr xs => by rw [norm, norm, normElems_normElems xs]
  | .obj fs => by rw [norm, norm, normFields_normFields fs]

theorem normElems_normElems : ∀ xs : List (Json α), normElems (normElems xs) = normElems xs
  | [] => rfl
  | x :: xs => by rw [normElems, normElems, norm_norm x, normElems_normElems xs]

theorem normFields_normFields : ∀ fs : List (Key × Json α),
    normFields (normFields fs) = normFields fs
  | [] => rfl
  | (k, v) :: fs => by rw [normFields, normFields, norm_norm v, normFields_normFields fs]

end

theorem lookup_normFields (k : Key) (fs : List (Key × Json α)) :
    lookup k (normFields fs) = (lookup k fs).map norm := by
  induction fs with
  | nil => rfl
  | cons p fs ih =>
      obtain ⟨l, v⟩ := p
      simp only [normFields, lookup, ih]
      split_ifs <;> rfl

/-- Reading a field commutes with printing and reading back. -/
theorem get?_norm (j : Json α) (k : Key) : j.norm.get? k = (j.get? k).map norm := by
  cases j with
  | obj fs => simpa only [norm, get?] using lookup_normFields k fs
  | integer i =>
      simp only [norm]
      split_ifs <;> rfl
  | _ => simp [norm, get?]

theorem normFields_insertField (k : Key) (v : Json α) (fs : List (Key × Json α)) :
    normFields (insertField k v fs) = insertField k v.norm (normFields fs) := by
  induction fs with
  | nil => rfl
  | cons p fs ih =>
      obtain ⟨l, u⟩ := p
      simp only [insertField, normFields]
      split_ifs with h1 h2
      · rfl
      · rfl
      · rw [normFields, ih]

theorem norm_set (j : Json α) (k : Key) (v : Json α) : (j.set k v).norm = j.norm.set k v.norm := by
  cases j with
  | obj fs => simp only [set, norm, normFields_insertField]
  | integer i =>
      simp only [set, norm]
      split_ifs <;> rfl
  | _ => simp [set, norm]

theorem norm_mkObj (fs : List (String × Json α)) :
    (mkObj fs).norm = mkObj (fs.map fun p => (p.1, p.2.norm)) := by
  simp only [mkObj, norm, ofFields, List.map_map, Function.comp_def]
  congr 1
  suffices h : ∀ acc : List (Key × Json α), normFields
      ((fs.map fun p => (bytes p.1, p.2)).foldl (fun acc p => insertField p.1 p.2 acc) acc) =
        (fs.map fun p => (bytes p.1, p.2.norm)).foldl (fun acc p => insertField p.1 p.2 acc)
          (normFields acc) from h []
  induction fs with
  | nil => exact fun acc => rfl
  | cons p fs ih =>
      intro acc
      rw [List.map_cons, List.map_cons, List.foldl_cons, List.foldl_cons, ih,
        normFields_insertField]

theorem isObject_norm (j : Json α) : j.norm.isObject = j.isObject := by
  cases j with
  | integer i =>
      simp only [norm]
      split_ifs <;> rfl
  | _ => simp [norm, isObject]

theorem str?_norm (j : Json α) : j.norm.str? = j.str? := by
  cases j with
  | integer i =>
      simp only [norm]
      split_ifs <;> rfl
  | _ => simp [norm, str?]

section WellFormed

variable [FloatFormat]

theorem wfElems_iff {xs : List (Json α)} : WFElems xs ↔ ∀ x ∈ xs, WF x := by
  induction xs with
  | nil => simp [WFElems]
  | cons x xs ih => simp [WFElems, ih]

theorem wfFields_iff {fs : List (Key × Json α)} : WFFields fs ↔ ∀ p ∈ fs, WF p.2 := by
  induction fs with
  | nil => simp [WFFields]
  | cons p fs ih => simp [WFFields, ih]

theorem wf_insertField {k : Key} {v : Json α} {fs : List (Key × Json α)}
    (hs : Sorted fs) (hfs : WFFields fs) (hv : WF v) :
    Sorted (insertField k v fs) ∧ WFFields (insertField k v fs) := by
  refine ⟨sorted_insertField k v hs, wfFields_iff.mpr fun p hp => ?_⟩
  rcases mem_insertField hp with rfl | hp
  · exact hv
  · exact wfFields_iff.mp hfs p hp

/-- An object built from well-formed fields is well formed. -/
theorem wf_mkObj {fs : List (String × Json α)} (h : ∀ p ∈ fs, WF p.2) : WF (mkObj fs) := by
  rw [mkObj]
  refine ⟨sorted_ofFields _, wfFields_iff.mpr fun p hp => ?_⟩
  obtain ⟨q, hq, rfl⟩ := List.mem_map.mp (mem_ofFields hp)
  exact h q hq

/-- Setting a field keeps a value well formed. -/
theorem wf_set {j v : Json α} {k : Key} (hj : WF j) (hv : WF v) : WF (j.set k v) := by
  cases j with
  | obj fs => exact wf_insertField hj.1 hj.2 hv
  | _ => exact hj

/-- So does taking one out. -/
theorem wf_erase {j : Json α} {k : Key} (hj : WF j) : WF (j.erase k) := by
  cases j with
  | obj fs =>
      exact ⟨hj.1.filter _, wfFields_iff.mpr fun p hp =>
        wfFields_iff.mp hj.2 p (List.mem_filter.mp hp).1⟩
  | _ => exact hj

theorem wf_lookup {fs : List (Key × Json α)} {k : Key} {v : Json α} (h : WFFields fs)
    (hv : lookup k fs = some v) : WF v := by
  induction fs with
  | nil => cases hv
  | cons p fs ih =>
      obtain ⟨l, u⟩ := p
      simp only [lookup] at hv
      split_ifs at hv
      · cases hv
        exact h.1
      · exact ih h.2 hv

theorem wf_get? {j v : Json α} {k : Key} (hj : WF j) (hv : j.get? k = some v) : WF v := by
  cases j with
  | obj fs => exact wf_lookup hj.2 hv
  | _ => cases hv

/-- The numbers and strings of a value are read back as they were. -/
theorem uint64?_norm (j : Json α) : j.norm.uint64? = j.uint64? := by
  cases j with
  | integer i =>
      simp only [norm]
      split_ifs <;> rfl
  | _ => simp [norm, uint64?]

theorem unsignedLongLong?_norm (j : Json α) : j.norm.unsignedLongLong? = j.unsignedLongLong? := by
  have h := uint64?_norm j
  cases j with
  | integer i =>
      simp only [norm] at h ⊢
      split_ifs at h ⊢ <;> exact h
  | _ => simp [norm, unsignedLongLong?, uint64?]

theorem int?_norm (j : Json α) : j.norm.int? = j.int? := by
  cases j with
  | integer i =>
      simp only [norm]
      split_ifs
      · rfl
      · simp only [int?]
        congr 1
        apply Int32.toBitVec_inj.mp
        simp [BitVec.signExtend_eq_setWidth_of_le]
  | _ => simp [norm, int?]

end WellFormed

/-! ## The fuel a text needs -/

mutual

/-- How deep the parser calls itself on the text of a value. -/
def size : Json α → Nat
  | .arr [] => 1
  | .arr (x :: xs) => 1 + (size x + sizeElems xs)
  | .obj fs => 1 + sizeFields fs
  | .null => 1
  | .bool _ => 1
  | .unsigned _ => 1
  | .integer _ => 1
  | .float _ => 1
  | .str _ => 1

def sizeElems : List (Json α) → Nat
  | [] => 1
  | x :: xs => 1 + (size x + sizeElems xs)

def sizeFields : List (Key × Json α) → Nat
  | [] => 0
  | (_, v) :: fs => 1 + (size v + sizeFields fs)

end

/-! ## What can be printed -/

section Printable

variable [Alphabet α]

mutual

/-- Every string of the value is valid UTF-8. -/
def Printable : Json α → Prop
  | .str s => validUtf8 s = true
  | .arr xs => PrintableElems xs
  | .obj fs => PrintableFields fs
  | .null => True
  | .bool _ => True
  | .unsigned _ => True
  | .integer _ => True
  | .float _ => True

def PrintableElems : List (Json α) → Prop
  | [] => True
  | x :: xs => Printable x ∧ PrintableElems xs

def PrintableFields : List (Key × Json α) → Prop
  | [] => True
  | (k, v) :: fs => validUtf8 k = true ∧ Printable v ∧ PrintableFields fs

end

theorem printableFields_iff {fs : List (Key × Json α)} :
    PrintableFields fs ↔ ∀ p ∈ fs, validUtf8 p.1 = true ∧ Printable p.2 := by
  induction fs with
  | nil => simp [PrintableFields]
  | cons p fs ih => simp [PrintableFields, ih, and_assoc]

theorem printable_mkObj {fs : List (String × Json α)} (h : ∀ p ∈ fs, Printable p.2) :
    Printable (mkObj fs) := by
  rw [mkObj]
  refine printableFields_iff.mpr fun p hp => ?_
  obtain ⟨q, hq, rfl⟩ := List.mem_map.mp (mem_ofFields hp)
  exact ⟨validUtf8_bytes q.1, h q hq⟩

theorem exists_dumpString {s : List α} (h : validUtf8 s = true) :
    ∃ t, dumpString s = some t :=
  ⟨_, if_pos h⟩

mutual

/-- A printable value has a text. -/
theorem exists_dumpWith (w : Option Nat) (d : Nat) :
    ∀ {j : Json α}, j.Printable → ∃ t, dumpWith w d j = some t
  | .null, _ => ⟨_, rfl⟩
  | .bool true, _ => ⟨_, rfl⟩
  | .bool false, _ => ⟨_, rfl⟩
  | .unsigned _, _ => ⟨_, rfl⟩
  | .integer _, _ => ⟨_, rfl⟩
  | .float _, _ => ⟨_, rfl⟩
  | .str _, h => exists_dumpString h
  | .arr [], _ => ⟨_, rfl⟩
  | .arr (x :: xs), h => by
      obtain ⟨a, ha⟩ := exists_dumpWith w (d + w.getD 0) h.1
      obtain ⟨b, hb⟩ := exists_dumpElems w d h.2
      exact ⟨_, by rw [dumpWith, ha, hb]; rfl⟩
  | .obj [], _ => ⟨_, rfl⟩
  | .obj ((k, v) :: fs), h => by
      obtain ⟨s, hs⟩ := exists_dumpString h.1
      obtain ⟨a, ha⟩ := exists_dumpWith w (d + w.getD 0) h.2.1
      obtain ⟨b, hb⟩ := exists_dumpFields w d h.2.2
      exact ⟨_, by rw [dumpWith, hs, ha, hb]; rfl⟩

theorem exists_dumpElems (w : Option Nat) (d : Nat) :
    ∀ {xs : List (Json α)}, PrintableElems xs → ∃ t, dumpElems w d xs = some t
  | [], _ => ⟨_, rfl⟩
  | x :: xs, h => by
      obtain ⟨a, ha⟩ := exists_dumpWith w (d + w.getD 0) h.1
      obtain ⟨b, hb⟩ := exists_dumpElems w d h.2
      exact ⟨_, by rw [dumpElems, ha, hb]; rfl⟩

theorem exists_dumpFields (w : Option Nat) (d : Nat) :
    ∀ {fs : List (Key × Json α)}, PrintableFields fs → ∃ t, dumpFields w d fs = some t
  | [], _ => ⟨_, rfl⟩
  | (k, v) :: fs, h => by
      obtain ⟨s, hs⟩ := exists_dumpString h.1
      obtain ⟨a, ha⟩ := exists_dumpWith w (d + w.getD 0) h.2.1
      obtain ⟨b, hb⟩ := exists_dumpFields w d h.2.2
      exact ⟨_, by rw [dumpFields, hs, ha, hb]; rfl⟩

end

theorem exists_dump {j : Json α} (h : j.Printable) : ∃ t, j.dump = some t :=
  exists_dumpWith none 0 h

end Printable

section Print

variable [Alphabet α] [FloatFormat]

/-- The text of a value starts with a character that is neither blank nor a
closing bracket. -/
theorem dumpWith_head {w : Option Nat} {d : Nat} {j : Json α} {t : List α}
    (h : dumpWith w d j = some t) (hj : j.WF) : ∃ b t', t = ofByte b :: t' ∧ StartsValue b := by
  have hbytes : ∀ {u : List UInt8}, (∃ b u', u = b :: u' ∧ StartsValue b) →
      ∃ b t', (ofBytes u : List α) = ofByte b :: t' ∧ StartsValue b := by
    rintro u ⟨b, u', rfl, hb⟩
    exact ⟨b, ofBytes u', rfl, hb⟩
  cases j with
  | null =>
      cases h
      exact hbytes ⟨_, _, rfl, by decide⟩
  | bool b =>
      cases b <;> cases h <;> exact hbytes ⟨_, _, rfl, by decide⟩
  | unsigned n =>
      cases h
      exact hbytes (decimal_head _)
  | integer i =>
      cases h
      exact hbytes (dumpInt_head _)
  | float u =>
      cases h
      obtain ⟨⟨neg, ds, hs⟩, -⟩ := FloatFormat.canon_float hj
      exact hbytes (scanNumber_head hs)
  | str s =>
      simp only [dumpWith, dumpString] at h
      split_ifs at h
      cases h
      exact ⟨_, _, rfl, by decide⟩
  | arr xs =>
      cases xs with
      | nil =>
          cases h
          exact hbytes ⟨_, _, rfl, by decide⟩
      | cons x xs =>
          simp only [dumpWith, Option.bind_eq_bind, Option.bind_eq_some_iff, Option.some.injEq] at h
          obtain ⟨a, -, b, -, rfl⟩ := h
          exact ⟨_, _, rfl, by decide⟩
  | obj fs =>
      cases fs with
      | nil =>
          cases h
          exact hbytes ⟨_, _, rfl, by decide⟩
      | cons p fs =>
          obtain ⟨k, v⟩ := p
          simp only [dumpWith, Option.bind_eq_bind, Option.bind_eq_some_iff, Option.some.injEq] at h
          obtain ⟨s, -, a, -, b, -, rfl⟩ := h
          exact ⟨_, _, rfl, by decide⟩

theorem length_of_head {w : Option Nat} {d : Nat} {j : Json α} {t : List α}
    (h : dumpWith w d j = some t) (hj : j.WF) : 1 ≤ t.length := by
  obtain ⟨b, t', rfl, -⟩ := dumpWith_head h hj
  simp

mutual

/-- The text of a value is at least as long as the fuel it needs. -/
theorem size_le_length {w : Option Nat} {d : Nat} {t : List α} :
    ∀ {j : Json α}, dumpWith w d j = some t → j.WF → j.size ≤ t.length
  | .arr (x :: xs), h, hj => by
      simp only [dumpWith, Option.bind_eq_bind, Option.bind_eq_some_iff, Option.some.injEq] at h
      obtain ⟨a, ha, b, hb, rfl⟩ := h
      have h1 := size_le_length ha hj.1
      have h2 := sizeElems_le_length hb hj.2
      simp only [size, List.length_append, length_ofBytes, List.length_cons]
      omega
  | .obj ((k, v) :: fs), h, hj => by
      simp only [dumpWith, Option.bind_eq_bind, Option.bind_eq_some_iff, Option.some.injEq] at h
      obtain ⟨s, hs, a, ha, b, hb, rfl⟩ := h
      have h1 := size_le_length ha hj.2.1
      have h2 := sizeFields_le_length hb hj.2.2
      have h3 := length_dumpString hs
      simp only [size, sizeFields, List.length_append, length_ofBytes, List.length_cons]
      omega
  | .arr [], h, hj => length_of_head h hj
  | .obj [], h, hj => length_of_head h hj
  | .null, h, hj => length_of_head h hj
  | .bool _, h, hj => length_of_head h hj
  | .unsigned _, h, hj => length_of_head h hj
  | .integer _, h, hj => length_of_head h hj
  | .float _, h, hj => length_of_head h hj
  | .str _, h, hj => length_of_head h hj

theorem sizeElems_le_length {w : Option Nat} {d : Nat} {t : List α} :
    ∀ {xs : List (Json α)}, dumpElems w d xs = some t → WFElems xs → sizeElems xs ≤ t.length
  | [], h, _ => by
      simp only [dumpElems, Option.some.injEq] at h
      simp only [← h, sizeElems, length_ofBytes, List.length_append, List.length_singleton]
      omega
  | x :: xs, h, hxs => by
      simp only [dumpElems, Option.bind_eq_bind, Option.bind_eq_some_iff, Option.some.injEq] at h
      obtain ⟨a, ha, b, hb, rfl⟩ := h
      have h1 := size_le_length ha hxs.1
      have h2 := sizeElems_le_length hb hxs.2
      simp only [sizeElems, List.length_append, length_ofBytes, List.length_cons]
      omega

theorem sizeFields_le_length {w : Option Nat} {d : Nat} {t : List α} :
    ∀ {fs : List (Key × Json α)}, dumpFields w d fs = some t → WFFields fs →
      sizeFields fs ≤ t.length
  | [], _, _ => Nat.zero_le _
  | (k, v) :: fs, h, hfs => by
      simp only [dumpFields, Option.bind_eq_bind, Option.bind_eq_some_iff, Option.some.injEq] at h
      obtain ⟨s, hs, a, ha, b, hb, rfl⟩ := h
      have h1 := size_le_length ha hfs.1
      have h2 := sizeFields_le_length hb hfs.2
      have h3 := length_dumpString hs
      simp only [sizeFields, List.length_append, length_ofBytes, List.length_cons]
      omega

end

/-! ## The round trip -/

/-- Blanks before a value are skipped. -/
theorem parseValue_skipWs (n : Nat) {s t : List α} (h : skipWs s = skipWs t) :
    parseValue n s = parseValue n t := by
  cases n with
  | zero => rfl
  | succ n => rw [parseValue, parseValue, h]

omit [FloatFormat] in
/-- The text of an element list starts with a comma, a line break or a bracket. -/
theorem numberEnds_dumpElems {w : Option Nat} {d : Nat} {xs : List (Json α)} {t : List α}
    (h : dumpElems w d xs = some t) (rest : List α) : NumberEnds (t ++ rest) := by
  cases xs with
  | nil =>
      simp only [dumpElems, Option.some.injEq] at h
      subst h
      unfold newline
      split_ifs <;> exact numberEnds_cons (by decide) _
  | cons x xs =>
      simp only [dumpElems, Option.bind_eq_bind, Option.bind_eq_some_iff, Option.some.injEq] at h
      obtain ⟨a, -, b, -, rfl⟩ := h
      exact numberEnds_cons (by decide) _

omit [FloatFormat] in
theorem numberEnds_dumpFields {w : Option Nat} {d : Nat} {fs : List (Key × Json α)} {t : List α}
    (h : dumpFields w d fs = some t) (rest : List α) : NumberEnds (t ++ rest) := by
  cases fs with
  | nil =>
      simp only [dumpFields, Option.some.injEq] at h
      subst h
      unfold newline
      split_ifs <;> exact numberEnds_cons (by decide) _
  | cons p fs =>
      obtain ⟨k, v⟩ := p
      simp only [dumpFields, Option.bind_eq_bind, Option.bind_eq_some_iff, Option.some.injEq] at h
      obtain ⟨s, -, a, -, b, -, rfl⟩ := h
      exact numberEnds_cons (by decide) _

/-- A number token read to its end. -/
theorem parseValue_number (n : Nat) {u : List UInt8} {v : Json α} {r : Bool × List UInt8 × Bool}
    (hu : scanNumber u = some r) (hall : u.all isNumChar = true) (hv : ofNumber u = some v)
    {rest : List α} (hr : NumberEnds rest) :
    parseValue (n + 1) (ofBytes u ++ rest) = some (v, rest) := by
  obtain ⟨b, u', rfl, hb⟩ := scanNumber_head hu
  have hbnum : isNumChar b = true := by
    simp only [List.all_cons, Bool.and_eq_true] at hall
    exact hall.1
  have hspan := spanNumber_append hall hr
  rw [ofBytes_cons, List.cons_append] at hspan ⊢
  rw [parseValue, skipWs_cons hb.2.2]
  have hne : ∀ c : UInt8, isNumChar c = false → b ≠ c := by
    rintro c hc rfl
    rw [hbnum] at hc
    cases hc
  simp only [toByte_ofByte, Option.some.injEq, hne 0x7B (by decide), hne 0x5B (by decide),
    hne 0x22 (by decide), hne 0x6E (by decide), hne 0x74 (by decide), hne 0x66 (by decide),
    if_false, hspan, hv, Option.map_some]

/-- A string token read to its end. -/
theorem parseValue_str (n : Nat) {s t : List α} (h : dumpString s = some t) (rest : List α) :
    parseValue (n + 1) (t ++ rest) = some (.str s, rest) := by
  unfold dumpString at h
  split_ifs at h with hs
  cases h
  rw [List.cons_append, List.append_assoc, parseValue, skipWs_cons (by decide)]
  simp [parseString_escape hs]

omit [FloatFormat] in
/-- Keys are printed as plain strings. -/
theorem dumpString_ofBytes {k s : List UInt8} (h : dumpString k = some s) :
    dumpString (ofBytes k : List α) = some (ofBytes s) := by
  have hesc : (escape (ofBytes k) : List α) = ofBytes (escape k) := by
    clear h
    induction k with
    | nil => rfl
    | cons b k ih =>
        rw [ofBytes_cons, escape_cons, escape_cons, ofBytes_append, ih]
        simp [escapeSym]
  have hvalid : validUtf8 (ofBytes k : List α) = validUtf8 k := by
    rw [validUtf8, validUtf8, Utf8.run_ofBytes]
  unfold dumpString at h ⊢
  rw [hvalid, hesc]
  split_ifs at h ⊢
  cases h
  simp

omit [FloatFormat] in
/-- A key is read to its closing quote. -/
theorem parse_key {k s : List UInt8} (h : dumpString k = some s) (w : Option Nat) (d : Nat)
    (rest : List α) :
    (expect 0x22 (skipWs (ofBytes (newline w d ++ s) ++ rest))).bind parseString =
      some (ofBytes k, rest) := by
  have hs := dumpString_ofBytes (α := α) h
  unfold dumpString at hs
  split_ifs at hs with hvalid
  rw [ofBytes_append, ← Option.some.inj hs, List.append_assoc, skipWs_newline, List.cons_append,
    skipWs_cons (by decide), expect_ofByte, Option.bind_some, List.append_assoc]
  exact parseString_escape hvalid rest

/-- The separator after a key is read up to the value. -/
theorem parse_colon (w : Option Nat) (n : Nat) (rest : List α) :
    ∃ s, expect 0x3A (skipWs (ofBytes (colon w) ++ rest)) = some s ∧
      parseValue n s = parseValue n rest := by
  have hblank : skipWs (ofBytes [0x20] ++ rest) = skipWs rest := skipWs_blanks (by simp) rest
  unfold colon
  split_ifs
  · exact ⟨ofBytes [0x20] ++ rest, by simp [skipWs_cons, expect],
      parseValue_skipWs n hblank⟩
  · exact ⟨rest, by simp [skipWs_cons, expect], rfl⟩

/-- A list is read when its first element and the rest of its elements are. -/
theorem parseValue_arr {n d : Nat} {w : Option Nat} {x x' : Json α} {xs' : List (Json α)}
    {a b rest : List α} (ha : dumpWith w d x = some a) (hx : x.WF)
    (hhead : parseValue n (a ++ (b ++ rest)) = some (x', b ++ rest))
    (htail : parseElems n (b ++ rest) = some (xs', rest)) :
    parseValue (n + 1) (ofBytes (0x5B :: newline w d) ++ a ++ b ++ rest) =
      some (.arr (x' :: xs'), rest) := by
  obtain ⟨c, a', rfl, hc⟩ := dumpWith_head ha hx
  have hblank : skipWs (ofBytes (newline w d) ++ (ofByte c :: a' ++ (b ++ rest))) =
      skipWs (ofByte c :: a' ++ (b ++ rest)) := skipWs_newline w d _
  rw [List.append_assoc, List.append_assoc, ofBytes_cons, List.cons_append, parseValue,
    skipWs_cons (by decide)]
  simp only [toByte_ofByte, Option.some.injEq, hblank, parseValue_skipWs n hblank]
  rw [List.cons_append] at hhead ⊢
  simp [skipWs_cons hc.2.2, expect_ne hc.1, hhead, htail]

theorem parseElems_cons {n d : Nat} {w : Option Nat} {x' : Json α} {xs' : List (Json α)}
    {a b rest : List α} (hhead : parseValue n (a ++ (b ++ rest)) = some (x', b ++ rest))
    (htail : parseElems n (b ++ rest) = some (xs', rest)) :
    parseElems (n + 1) (ofBytes (0x2C :: newline w d) ++ a ++ b ++ rest) =
      some (x' :: xs', rest) := by
  have hblank : skipWs (ofBytes (newline w d) ++ (a ++ (b ++ rest))) = skipWs (a ++ (b ++ rest)) :=
    skipWs_newline w d _
  rw [List.append_assoc, List.append_assoc, ofBytes_cons, List.cons_append, parseElems,
    skipWs_cons (by decide), expect_ne (by decide), expect_ofByte]
  simp [parseValue_skipWs n hblank, hhead, htail]

/-- A field is read with the fields after it, into the fields before it. -/
theorem parseField_cons {n d : Nat} {w : Option Nat} {k s : List UInt8} {v' : Json α}
    {fs fs' : List (Key × Json α)} {acc : List (Key × Json α)} {a b rest : List α}
    (hs : dumpString k = some s) (hacc : ∀ p ∈ acc, p.1 < k) (hb : dumpFields w d fs = some b)
    (hv : parseValue n (a ++ (b ++ rest)) = some (v', b ++ rest))
    (hnil : fs = [] → fs' = [])
    (hfs : ∀ u, b = ofByte 0x2C :: u → parseField n (acc ++ [(k, v')]) (u ++ rest) =
      some (acc ++ [(k, v')] ++ fs', rest)) (d' : Nat) :
    parseField (n + 1) acc (ofBytes (newline w d' ++ s ++ colon w) ++ a ++ b ++ rest) =
      some (acc ++ (k, v') :: fs', rest) := by
  obtain ⟨u, hu, hval⟩ := parse_colon w n (a ++ (b ++ rest))
  rw [ofBytes_append, List.append_assoc, List.append_assoc, List.append_assoc, parseField,
    parse_key hs]
  simp only [toBytes_ofBytes, hu, hval, hv, insertField_append v' hacc]
  cases fs with
  | nil =>
      simp only [dumpFields, Option.some.injEq] at hb
      subst hb
      rw [ofBytes_append, List.append_assoc, skipWs_newline, ofBytes_cons, List.cons_append,
        skipWs_cons (by decide), expect_ofByte]
      simp [hnil rfl]
  | cons p fs =>
      obtain ⟨l, v⟩ := p
      simp only [dumpFields, Option.bind_eq_bind, Option.bind_eq_some_iff, Option.some.injEq] at hb
      obtain ⟨t, -, c, -, e, -, rfl⟩ := hb
      have hfs := hfs (ofBytes (newline w (d + w.getD 0) ++ t ++ colon w) ++ c ++ e) rfl
      simp only [ofBytes_append, ofBytes_cons, List.cons_append, List.append_assoc] at hfs ⊢
      rw [skipWs_cons (by decide), expect_ne (by decide), expect_ofByte]
      simpa using hfs

/-- An object with at least one field is read as its fields are. -/
theorem parseValue_obj {n d : Nat} {w : Option Nat} {k s : List UInt8}
    {fs' : List (Key × Json α)} {a rest : List α} (hs : dumpString k = some s)
    (h : parseField n [] (ofBytes (newline w d ++ s ++ colon w) ++ a) = some (fs', rest)) :
    parseValue (n + 1) (ofBytes (0x7B :: newline w d ++ s ++ colon w) ++ a) =
      some (.obj fs', rest) := by
  have hquote : ∃ s', s = 0x22 :: s' := by
    unfold dumpString at hs
    split_ifs at hs
    exact ⟨_, (Option.some.inj hs).symm⟩
  obtain ⟨s', rfl⟩ := hquote
  have hclose : expect 0x7D (skipWs (ofBytes (newline w d ++ 0x22 :: s' ++ colon w) ++ a)) =
      none := by
    rw [List.append_assoc, ofBytes_append, List.append_assoc, skipWs_newline, List.cons_append,
      ofBytes_cons, List.cons_append, skipWs_cons (by decide), expect_ne (by decide)]
  rw [List.cons_append, List.cons_append, ofBytes_cons, List.cons_append, parseValue,
    skipWs_cons (by decide)]
  simp only [toByte_ofByte, if_true, hclose, h, Option.map_some]

mutual

/-- **A printed value is read back**, with any text after it that does not
continue a number. -/
theorem parseValue_dumpWith {w : Option Nat} : ∀ {n d : Nat} {j : Json α} {t rest : List α},
    dumpWith w d j = some t → j.WF → j.size ≤ n → NumberEnds rest →
      parseValue n (t ++ rest) = some (j.norm, rest)
  | 0, _, j, _, _, _, _, hn, _ => by
      have : 1 ≤ j.size := by unfold size; split <;> omega
      omega
  | n + 1, d, .arr (x :: xs), t, rest, h, hj, hn, hr => by
      simp only [dumpWith, Option.bind_eq_bind, Option.bind_eq_some_iff, Option.some.injEq] at h
      obtain ⟨a, ha, b, hb, rfl⟩ := h
      have hsize : x.size + sizeElems xs ≤ n := by simp only [size] at hn; omega
      have hhead := parseValue_dumpWith (n := n) ha hj.1 (by omega) (numberEnds_dumpElems hb rest)
      exact parseValue_arr ha hj.1 hhead (parseElems_dumpElems hb hj.2 (by omega) rest)
  | n + 1, d, .obj ((k, v) :: fs), t, rest, h, hj, hn, hr => by
      simp only [dumpWith, Option.bind_eq_bind, Option.bind_eq_some_iff, Option.some.injEq] at h
      obtain ⟨s, hs, a, ha, b, hb, rfl⟩ := h
      have hsize : sizeFields ((k, v) :: fs) ≤ n := by simp only [size] at hn; omega
      rw [List.append_assoc, List.append_assoc]
      refine parseValue_obj hs ?_
      have hacc : ∀ p ∈ ([] : List (Key × Json α)), p.1 < k := by simp
      have := parseField_dumpFields hs ha hb hj.1 hj.2 hacc hsize (d + w.getD 0) rest
      simpa only [List.append_assoc, List.nil_append, normFields] using this
  | n + 1, d, .arr [], t, rest, h, hj, hn, hr => by
      cases h
      change parseValue (n + 1) (ofByte 0x5B :: ofByte 0x5D :: rest) = _
      rw [parseValue, skipWs_cons (by decide)]
      simp [skipWs_cons, expect, norm, normElems]
  | n + 1, d, .obj [], t, rest, h, hj, hn, hr => by
      cases h
      change parseValue (n + 1) (ofByte 0x7B :: ofByte 0x7D :: rest) = _
      rw [parseValue, skipWs_cons (by decide)]
      simp [skipWs_cons, expect, norm, normFields]
  | n + 1, d, .null, t, rest, h, hj, hn, hr => by
      cases h
      change parseValue (n + 1) (ofByte 0x6E :: (ofBytes (bytes "ull") ++ rest)) = _
      rw [parseValue, skipWs_cons (by decide)]
      simp [expects_ofBytes, norm]
  | n + 1, d, .bool true, t, rest, h, hj, hn, hr => by
      cases h
      change parseValue (n + 1) (ofByte 0x74 :: (ofBytes (bytes "rue") ++ rest)) = _
      rw [parseValue, skipWs_cons (by decide)]
      simp [expects_ofBytes, norm]
  | n + 1, d, .bool false, t, rest, h, hj, hn, hr => by
      cases h
      change parseValue (n + 1) (ofByte 0x66 :: (ofBytes (bytes "alse") ++ rest)) = _
      rw [parseValue, skipWs_cons (by decide)]
      simp [expects_ofBytes, norm]
  | n + 1, d, .unsigned u, t, rest, h, hj, hn, hr => by
      cases h
      exact parseValue_number n (scanNumber_decimal _) (all_isNumChar_decimal _)
        (ofNumber_decimal u) hr
  | n + 1, d, .integer i, t, rest, h, hj, hn, hr => by
      cases h
      obtain ⟨r, hscan⟩ := scanNumber_dumpInt i.toInt
      exact parseValue_number n hscan (all_isNumChar_dumpInt _) (ofNumber_dumpInt i) hr
  | n + 1, d, .float u, t, rest, h, hj, hn, hr => by
      cases h
      obtain ⟨⟨neg, ds, hscan⟩, hall⟩ := FloatFormat.canon_float hj
      exact parseValue_number n hscan hall (ofNumber_float hj) hr
  | n + 1, d, .str s, t, rest, h, hj, hn, hr => parseValue_str n h rest

theorem parseElems_dumpElems {w : Option Nat} : ∀ {n d : Nat} {xs : List (Json α)} {t : List α},
    dumpElems w d xs = some t → WFElems xs → sizeElems xs ≤ n → ∀ rest,
      parseElems n (t ++ rest) = some (normElems xs, rest)
  | 0, _, xs, _, _, _, hn, _ => by
      cases xs <;> simp [sizeElems] at hn
  | n + 1, d, [], t, h, _, hn, rest => by
      simp only [dumpElems, Option.some.injEq] at h
      subst h
      rw [parseElems, ofBytes_append, List.append_assoc, skipWs_newline, ofBytes_cons,
        List.cons_append, skipWs_cons (by decide), expect_ofByte]
      rfl
  | n + 1, d, x :: xs, t, h, hxs, hn, rest => by
      simp only [dumpElems, Option.bind_eq_bind, Option.bind_eq_some_iff, Option.some.injEq] at h
      obtain ⟨a, ha, b, hb, rfl⟩ := h
      have hsize : x.size + sizeElems xs ≤ n := by simp only [sizeElems] at hn; omega
      have hhead := parseValue_dumpWith (n := n) ha hxs.1 (by omega) (numberEnds_dumpElems hb rest)
      exact parseElems_cons hhead (parseElems_dumpElems hb hxs.2 (by omega) rest)

theorem parseField_dumpFields {w : Option Nat} : ∀ {n d : Nat} {k s : List UInt8} {v : Json α}
    {fs acc : List (Key × Json α)} {a b : List α},
    dumpString k = some s → dumpWith w (d + w.getD 0) v = some a → dumpFields w d fs = some b →
      Sorted ((k, v) :: fs) → WFFields ((k, v) :: fs) → (∀ p ∈ acc, p.1 < k) →
      sizeFields ((k, v) :: fs) ≤ n → ∀ d' rest,
      parseField n acc (ofBytes (newline w d' ++ s ++ colon w) ++ a ++ b ++ rest) =
        some (acc ++ (k, v.norm) :: normFields fs, rest)
  | 0, _, _, _, _, _, _, _, _, _, _, _, _, _, _, hn, _, _ => by
      simp [sizeFields] at hn
  | n + 1, d, k, s, v, fs, acc, a, b, hs, ha, hb, hsort, hwf, hacc, hn, d', rest => by
      have hsize : v.size + sizeFields fs ≤ n := by simp only [sizeFields] at hn; omega
      have hv := parseValue_dumpWith (n := n) ha hwf.1 (by omega) (numberEnds_dumpFields hb rest)
      obtain ⟨hk, hsort'⟩ := List.pairwise_cons.mp hsort
      refine parseField_cons hs hacc hb hv (by rintro rfl; rfl) (fun u hu => ?_) d'
      cases fs with
      | nil =>
          simp only [dumpFields, Option.some.injEq] at hb
          subst hb
          unfold newline at hu
          split_ifs at hu
          · exact absurd (ofByte_injective (List.cons.inj hu).1) (by decide)
          · exact absurd (ofByte_injective (List.cons.inj hu).1) (by decide)
      | cons p fs =>
          obtain ⟨l, y⟩ := p
          simp only [dumpFields, Option.bind_eq_bind, Option.bind_eq_some_iff,
            Option.some.injEq] at hb
          obtain ⟨t, ht, c, hc, e, he, rfl⟩ := hb
          have hacc' : ∀ p ∈ acc ++ [(k, v.norm)], p.1 < l := by
            intro p hp
            have hkl : k < l := hk (l, y) List.mem_cons_self
            rcases List.mem_append.mp hp with hp | hp
            · exact List.lt_trans (hacc p hp) hkl
            · rw [List.mem_singleton.mp hp]
              exact hkl
          have := parseField_dumpFields (n := n) ht hc he hsort' hwf.2 hacc' (by omega)
            (d + w.getD 0) rest
          have hu' : u = ofBytes (newline w (d + w.getD 0) ++ t ++ colon w) ++ c ++ e :=
            (List.cons.inj hu).2.symm
          rw [hu', this]
          rfl

end

/-- **Parsing inverts printing**, also when blanks follow the text. -/
theorem parse_dumpWith_blanks {w : Option Nat} {d : Nat} {j : Json α} {t : List α}
    (h : dumpWith w d j = some t) (hj : j.WF) {u : List UInt8}
    (hu : ∀ b ∈ u, (b == 0x20 || b == 0x09 || b == 0x0A || b == 0x0D) = true) :
    parse (t ++ ofBytes u) = some j.norm := by
  obtain ⟨b, t', ht, hb⟩ := dumpWith_head h hj
  have hbom : skipBom (t ++ ofBytes u) = t ++ ofBytes u := by
    rw [ht, List.cons_append, skipBom, expects, expect_ne hb.2.1]
    rfl
  have hends : NumberEnds (ofBytes u : List α) := by
    cases u with
    | nil => exact numberEnds_nil
    | cons c u =>
        refine numberEnds_cons ?_ _
        have hc := hu c (by simp)
        simp only [Bool.or_eq_true, beq_iff_eq] at hc
        rcases hc with ((rfl | rfl) | rfl) | rfl <;> decide
  have hend : atEnd (ofBytes u : List α) = true := by
    have := skipWs_blanks hu ([] : List α)
    rw [List.append_nil] at this
    rw [atEnd, this]
    rfl
  have hsize : j.size ≤ (t ++ ofBytes u).length + 1 := by
    have := size_le_length h hj
    rw [List.length_append]
    omega
  rw [parse, hbom, parseValue_dumpWith h hj hsize hends]
  simp only [hend, if_true]

theorem parse_dumpWith {w : Option Nat} {d : Nat} {j : Json α} {t : List α}
    (h : dumpWith w d j = some t) (hj : j.WF) : parse t = some j.norm := by
  simpa using parse_dumpWith_blanks h hj (u := []) (by simp)

theorem parse_dump {j : Json α} {t : List α} (h : j.dump = some t) (hj : j.WF) :
    parse t = some j.norm :=
  parse_dumpWith h hj

/-- **The text of a value determines it**, up to what the text does not record. -/
theorem dump_inj {i j : Json α} {t : List α} (hi : i.dump = some t) (hj : j.dump = some t)
    (hwi : i.WF) (hwj : j.WF) : i.norm = j.norm :=
  Option.some.inj ((parse_dump hi hwi).symm.trans (parse_dump hj hwj))

/-! ## What the parser accepts is well formed -/

omit [Alphabet α] in
theorem wf_ofNumber {t : List UInt8} {j : Json α} (h : ofNumber t = some j) : j.WF := by
  have hfloat : ∀ {j : Json α}, (FloatFormat.canon t).map .float = some j → j.WF := by
    intro j h
    obtain ⟨u, hu, rfl⟩ := Option.map_eq_some_iff.mp h
    exact FloatFormat.canon_canon hu
  unfold ofNumber at h
  split at h
  · cases h
  · split_ifs at h
    · exact hfloat h
    · cases h
      trivial
    · exact hfloat h
    · cases h
      trivial
    · exact hfloat h

mutual

theorem wf_parseValue : ∀ {n : Nat} {s : List α} {r : Json α × List α},
    parseValue n s = some r → r.1.WF
  | 0, _, _, h => by cases h
  | n + 1, s, r, h => by
      rw [parseValue] at h
      split at h
      · cases h
      · split_ifs at h
        · split at h
          · cases h
            exact ⟨List.Pairwise.nil, trivial⟩
          · obtain ⟨p, hp, rfl⟩ := Option.map_eq_some_iff.mp h
            exact wf_parseField List.Pairwise.nil trivial hp
        · split at h
          · cases h
            trivial
          · split at h
            · cases h
            · rename_i v s' hv
              obtain ⟨p, hp, rfl⟩ := Option.map_eq_some_iff.mp h
              exact ⟨wf_parseValue hv, wf_parseElems hp⟩
        · obtain ⟨p, -, rfl⟩ := Option.map_eq_some_iff.mp h
          trivial
        · obtain ⟨p, -, rfl⟩ := Option.map_eq_some_iff.mp h
          trivial
        · obtain ⟨p, -, rfl⟩ := Option.map_eq_some_iff.mp h
          trivial
        · obtain ⟨p, -, rfl⟩ := Option.map_eq_some_iff.mp h
          trivial
        · obtain ⟨v, hv, rfl⟩ := Option.map_eq_some_iff.mp h
          exact wf_ofNumber hv

theorem wf_parseElems : ∀ {n : Nat} {s : List α} {r : List (Json α) × List α},
    parseElems n s = some r → WFElems r.1
  | 0, _, _, h => by cases h
  | n + 1, s, r, h => by
      rw [parseElems] at h
      split at h
      · cases h
        trivial
      · split at h
        · cases h
        · split at h
          · cases h
          · rename_i v s' hv
            obtain ⟨p, hp, rfl⟩ := Option.map_eq_some_iff.mp h
            exact ⟨wf_parseValue hv, wf_parseElems hp⟩

theorem wf_parseField : ∀ {n : Nat} {acc : List (Key × Json α)} {s : List α}
    {r : List (Key × Json α) × List α}, Sorted acc → WFFields acc →
      parseField n acc s = some r → Sorted r.1 ∧ WFFields r.1
  | 0, _, _, _, _, _, h => by cases h
  | n + 1, acc, s, r, hs, hw, h => by
      rw [parseField] at h
      split at h
      · cases h
      · split at h
        · split at h
          · cases h
          · rename_i v s' hv
            obtain ⟨hs', hw'⟩ := wf_insertField hs hw (wf_parseValue hv)
            split at h
            · cases h
              exact ⟨hs', hw'⟩
            · split at h
              · cases h
              · exact wf_parseField hs' hw' h
        · cases h

end

/-- **What the parser accepts is well formed**, so it prints as it was read. -/
theorem wf_of_parse {s : List α} {j : Json α} (h : parse s = some j) : j.WF := by
  unfold parse at h
  split at h
  · rename_i r hr
    split_ifs at h
    cases h
    exact wf_parseValue hr
  · cases h

end Print

end Json

end Codec
