import Kingdom.Server.StoreInv

/-!
# The participants of a conversation

`getConversationsByUserId` gets the participants as the text of a PostgreSQL array and splits
it by hand.

* `arrayText` — how PostgreSQL writes a `bigint[]`.
* `parseLoop`, `parseParticipantIds` — the loop over the text.
* `parseParticipantIds_arrayText` — it reads what was written.
* `participants_read_back` — of every conversation that was created, in any order of its rows.
-/

namespace Kds

open Codec

/-- `,` -/
def comma : UInt8 := 0x2C

/-! ## The text -/

/-- A `bigint` as PostgreSQL writes it. -/
def bigintText (x : Int64) : Bytes :=
  if x.toInt < 0 then 0x2D :: decimal x.toInt.natAbs else decimal x.toInt.natAbs

/-- The elements of an array, with commas between them. -/
def elementsText : List Int64 → Bytes
  | [] => []
  | [x] => bigintText x
  | x :: y :: xs => bigintText x ++ comma :: elementsText (y :: xs)

/-- A `bigint[]` as PostgreSQL writes it. -/
def arrayText (xs : List Int64) : Bytes := 0x7B :: (elementsText xs ++ [0x7D])

/-! ## The loop -/

/-- The loop over what is left between the braces, with the ids it has found. -/
def parseLoop (inner : Bytes) (participantIds : List UInt64) : List UInt64 :=
  if inner = [] then participantIds
  else
    let found := inner.idxOf? comma
    let token := match found with
      | none => inner
      | some i => inner.take i
    let participantIds := match fromCharsFront token with
      | some participantId => participantIds ++ [participantId]
      | none => participantIds
    match found with
    | none => participantIds
    | some i => parseLoop (inner.drop (i + 1)) participantIds
termination_by inner.length
decreasing_by
  rename_i _ hne
  have hpos := List.length_pos_of_ne_nil hne
  rw [List.length_drop]
  omega

/-- What `getConversationsByUserId` makes of the array it is given. -/
def parseParticipantIds (arrayStr : Bytes) : List UInt64 :=
  if 2 ≤ arrayStr.length then parseLoop ((arrayStr.drop 1).take (arrayStr.length - 2)) [] else []

/-! ## It reads what was written -/

/-- An id that is not negative is written in digits. -/
theorem bigintText_of_nonneg {x : Int64} (h : 0 ≤ x.toInt) :
    bigintText x = decimal x.toUInt64.toNat := by
  have hle : (0 : Int64) ≤ x := Int64.le_iff_toInt_le.mpr h
  rw [bigintText, if_neg (by omega), Int64.toNat_toUInt64_of_le hle, Int64.toNatClampNeg]
  congr 1
  omega

/-- A digit is no comma. -/
theorem comma_not_mem_decimal (n : Nat) : comma ∉ decimal n := by
  intro hmem
  exact absurd (isDigit_decimal n comma hmem) (by decide)

/-- A comma ends the first token. -/
theorem parseLoop_cons {token : Bytes} (rest : Bytes) (ids : List UInt64) (hne : token ≠ [])
    (hcomma : comma ∉ token) : parseLoop (token ++ comma :: rest) ids =
      parseLoop rest (ids ++ (fromCharsFront token).toList) := by
  have hfound : (token ++ comma :: rest).idxOf? comma = some token.length := by
    refine List.idxOf?_eq_some_iff.mpr ⟨by simp, by simp, ?_⟩
    intro j hj heq
    rw [List.getElem_append_left hj] at heq
    exact hcomma (heq ▸ List.getElem_mem hj)
  rw [parseLoop, if_neg (by simp [hne])]
  simp only [hfound, List.take_left]
  have hdrop : (token ++ comma :: rest).drop (token.length + 1) = rest := by
    rw [← List.drop_drop, List.drop_left]
    rfl
  rw [hdrop]
  cases fromCharsFront token <;> simp

/-- The last token has no comma after it. -/
theorem parseLoop_last {token : Bytes} (ids : List UInt64) (hne : token ≠ [])
    (hcomma : comma ∉ token) :
    parseLoop token ids = ids ++ (fromCharsFront token).toList := by
  have hfound : token.idxOf? comma = none := List.idxOf?_eq_none_iff.mpr hcomma
  rw [parseLoop, if_neg hne]
  simp only [hfound]
  cases fromCharsFront token <;> simp

/-- **The loop reads the elements back**, after the ids it has found before. -/
theorem parseLoop_elementsText {xs : List Int64} (h : ∀ x ∈ xs, 0 ≤ x.toInt) (ids : List UInt64) :
    parseLoop (elementsText xs) ids = ids ++ xs.map (·.toUInt64) := by
  have hread : ∀ x : Int64, 0 ≤ x.toInt → bigintText x ≠ [] ∧ comma ∉ bigintText x ∧
      fromCharsFront (bigintText x) = some x.toUInt64 := by
    intro x hx
    rw [bigintText_of_nonneg hx]
    refine ⟨decimal_ne_nil _, comma_not_mem_decimal _, ?_⟩
    rw [fromCharsFront_decimal x.toUInt64.toNat_lt, UInt64.ofNat_toNat]
  induction xs generalizing ids with
  | nil =>
      rw [elementsText, parseLoop, if_pos rfl, List.map_nil, List.append_nil]
  | cons x xs ih =>
      obtain ⟨hne, hcomma, hx⟩ := hread x (h x (List.mem_cons_self ..))
      cases xs with
      | nil =>
          rw [elementsText, parseLoop_last ids hne hcomma, hx]
          rfl
      | cons y xs =>
          have hrest : ∀ z ∈ y :: xs, 0 ≤ z.toInt := fun z hz => h z (List.mem_cons_of_mem _ hz)
          rw [elementsText, parseLoop_cons _ ids hne hcomma, hx, ih hrest, List.append_assoc]
          rfl

/-- **What PostgreSQL writes is read back**, in its order. -/
theorem parseParticipantIds_arrayText {xs : List Int64} (h : ∀ x ∈ xs, 0 ≤ x.toInt) :
    parseParticipantIds (arrayText xs) = xs.map (·.toUInt64) := by
  have hlength : (arrayText xs).length = (elementsText xs).length + 2 := by
    simp [arrayText]
  have hinner : ((arrayText xs).drop 1).take ((arrayText xs).length - 2) = elementsText xs := by
    rw [hlength, arrayText, List.drop_succ_cons, List.drop_zero, Nat.add_sub_cancel, List.take_left]
  rw [parseParticipantIds, if_pos (by omega), hinner, parseLoop_elementsText h, List.nil_append]

/-! ## The conversations of the store -/

section Created

variable {s s' : Store} {now : Int64} {name : Bytes} {ids : List UInt64} {id : UInt64}

/-- The users of the store have ids that are not negative. -/
theorem StoreInv.user_nonneg (h : StoreInv s) {u : Int64} (hu : s.hasUser u = true) :
    0 ≤ u.toInt := by
  obtain ⟨row, hrow, rfl⟩ := hasUser_iff.mp hu
  have hbound := h.userIds.bound row.id (List.mem_map_of_mem hrow)
  omega

/-- **The participants of a conversation** are what the loop makes of their array. -/
theorem participantsOf_parsed (h : StoreInv s) (c : Int64) :
    parseParticipantIds (arrayText (s.participantsOf c)) =
      (s.participantsOf c).map (·.toUInt64) := by
  apply parseParticipantIds_arrayText
  intro u hu
  exact h.user_nonneg (h.user_of_participant (mem_participantsOf.mp hu))

/-- **Participants are read back exactly**: any ids a `bigint` can hold, in the order they are
written in; and so those of a conversation that was created, in any order of its rows. -/
theorem participants_read_back :
    (∀ ids order : List UInt64, ids ≠ [] → ids.Nodup → (∀ u ∈ ids, u.toNat < 2 ^ 63) →
      order.Perm ids → parseParticipantIds (arrayText (order.map bigint)) = order) ∧
    ∀ (s s' : Store) (now : Int64) (name : Bytes) (ids : List UInt64) (id : UInt64),
      StoreInv s → Database.createConversation s now name ids = .ok (id, s') →
      ∀ rows : List Int64, rows.Perm (s'.participantsOf (bigint id)) →
        (parseParticipantIds (arrayText rows)).Perm ids ∧
          (parseParticipantIds (arrayText rows)).map bigint = rows := by
  have hback : ∀ order : List UInt64, (order.map bigint).map (·.toUInt64) = order := by
    intro order
    rw [List.map_map]
    exact (List.map_congr_left fun u _ => toUInt64_bigint u).trans (List.map_id order)
  constructor
  · intro ids order _ _ hfits hperm
    rw [parseParticipantIds_arrayText, hback]
    intro x hx
    obtain ⟨u, hu, rfl⟩ := List.mem_map.mp hx
    exact bigint_nonneg (hfits u (hperm.mem_iff.mp hu))
  · intro s s' now name ids id hinv hok rows hperm
    rw [participantsOf_createConversation hinv hok, if_pos rfl] at hperm
    obtain ⟨-, husers, -⟩ := createConversation_ok hok
    have hread : parseParticipantIds (arrayText rows) = rows.map (·.toUInt64) := by
      apply parseParticipantIds_arrayText
      intro x hx
      obtain ⟨u, hu, rfl⟩ := List.mem_map.mp (hperm.mem_iff.mp hx)
      exact hinv.user_nonneg (husers u hu)
    rw [hread]
    constructor
    · have hids := hperm.map (·.toUInt64)
      rwa [hback] at hids
    · rw [List.map_map]
      exact (List.map_congr_left fun x _ => bigint_toUInt64 x).trans (List.map_id rows)

end Created

/-- Three users, the last of whom has the largest id. -/
theorem participants_read_back_example :
    parseParticipantIds (arrayText ([9223372036854775807, 1, 7].map bigint)) =
      [9223372036854775807, 1, 7] :=
  participants_read_back.1 [1, 7, 9223372036854775807] _ (by decide) (by decide)
    (by simp) (by decide)

end Kds
