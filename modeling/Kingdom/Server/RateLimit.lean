import Kingdom.Limiter.FixedWindow
import Kingdom.Server.Safety

/-!
# The rate limiter over many requests

`isRateLimited_` keeps one counter and one start time for each address and drops
the entries of addresses that have been quiet for long.  It is compared with a
limiter that serves one address and drops nothing, and with the sliding limit the
documentation promises.

* `limit` — the answers to a sequence of requests, and the entries left behind.
* `referenceLimit` — the answers of one counter that is never dropped.
* `CountsLike` — the entries agree with one such counter for each address: an entry
  that was dropped would have been reset anyway.
* `eviction_invisible` — so other addresses and dropped entries do not show.
* `slides_iff_apart` — the requests that get through keep the sliding limit exactly
  when the windows of each address keep apart.
* `limit_of_run` — in a run of the server the limiter gives these answers.
-/

namespace Kds

open Codec Limiter Process

/-- `rateLimitMap_` -/
abbrev RateLimitMap := List (Bytes × RateLimitEntry)

/-- A request as the limiter sees it: its address and the steady time. -/
structure Arrival where
  ipAddr : Bytes
  now : Nat
  deriving DecidableEq, Repr

/-- `kWindow`, in nanoseconds. -/
def window : Nat := secondsToNanos 60

/-- The requests with the answers of `isRateLimited_`, and the entries it leaves. -/
def limit (maxRequests : Int) : RateLimitMap → List Arrival → List (Arrival × Bool) × RateLimitMap
  | entries, [] => ([], entries)
  | entries, a :: arrivals =>
      let r := isRateLimited_ maxRequests a.now a.ipAddr entries
      let rest := limit maxRequests r.2 arrivals
      ((a, r.1) :: rest.1, rest.2)

/-- The answers one address gets. -/
def answersTo (ip : Bytes) (answered : List (Arrival × Bool)) : List Bool :=
  (answered.filter fun p => p.1.ipAddr = ip).map (·.2)

/-- The times at which the requests of one address come. -/
def timesOf (ip : Bytes) (arrivals : List Arrival) : List Nat :=
  (arrivals.filter fun a => a.ipAddr = ip).map (·.now)

/-- The times of the requests of one address that got through. -/
def passed (ip : Bytes) (answered : List (Arrival × Bool)) : List Nat :=
  (answered.filter fun p => p.1.ipAddr = ip ∧ p.2 = false).map fun p => p.1.now

/-! ## One counter -/

/-- The counter after a request at `now`: a window that has ended is left first. -/
def countRequest (now : Nat) (entry : RateLimitEntry) : RateLimitEntry :=
  if window ≤ now - entry.windowStart then ⟨1, now⟩ else ⟨entry.count + 1, entry.windowStart⟩

/-- The answers of a counter that serves one address and is never dropped. -/
def referenceLimit (maxRequests : Int) : RateLimitEntry → List Nat → List Bool
  | _, [] => []
  | entry, now :: times =>
      decide (maxRequests < ((countRequest now entry).count : Int)) ::
        referenceLimit maxRequests (countRequest now entry) times

/-- The entry of an address that is not in the map. -/
def RateLimitEntry.default : RateLimitEntry := ⟨0, 0⟩

/-! ## The simulation -/

/-- At `now`, each entry is the counter of its address, and a counter without an entry
is fresh or would be reset. -/
structure CountsLike (counters : Bytes → RateLimitEntry) (now : Nat) (entries : RateLimitMap) :
    Prop where
  entry : ∀ p ∈ entries, p.2 = counters p.1
  absent : ∀ ip, (∀ p ∈ entries, p.1 ≠ ip) →
    counters ip = .default ∨ (counters ip).windowStart + window ≤ now

theorem CountsLike.later {counters : Bytes → RateLimitEntry} {now later : Nat}
    {entries : RateLimitMap} (h : CountsLike counters now entries) (hle : now ≤ later) :
    CountsLike counters later entries := by
  refine ⟨h.entry, fun ip hip => ?_⟩
  rcases h.absent ip hip with hfresh | hended
  · exact Or.inl hfresh
  · exact Or.inr (hended.trans hle)

/-- An entry that is dropped belongs to a window that has ended. -/
theorem CountsLike.evict {counters : Bytes → RateLimitEntry} {now : Nat} {entries : RateLimitMap}
    (h : CountsLike counters now entries) :
    CountsLike counters now
      (entries.filter fun p => ¬ secondsToNanos 300 < now - p.2.windowStart) := by
  refine ⟨fun p hp => h.entry p (List.mem_of_mem_filter hp), fun ip hip => ?_⟩
  by_cases hmem : ∃ p ∈ entries, p.1 = ip
  · obtain ⟨p, hp, rfl⟩ := hmem
    have hstale : secondsToNanos 300 < now - p.2.windowStart := by
      by_contra hfresh
      exact hip p (List.mem_filter.mpr ⟨hp, by simpa using hfresh⟩) rfl
    rw [← h.entry p hp]
    simp only [secondsToNanos, window] at hstale ⊢
    omega
  · apply h.absent
    intro p hp hpip
    exact hmem ⟨p, hp, hpip⟩

/-- The entry the code finds, or makes, counts the request like the counter. -/
theorem CountsLike.count {counters : Bytes → RateLimitEntry} {now : Nat} {kept : RateLimitMap}
    (h : CountsLike counters now kept) (ip : Bytes) :
    countRequest now (((kept.find? fun p => p.1 = ip).map (·.2)).getD .default) =
      countRequest now (counters ip) := by
  cases hfind : kept.find? fun p => p.1 = ip with
  | some p =>
      have hip : p.1 = ip := by simpa using List.find?_some hfind
      rw [Option.map_some, Option.getD_some, h.entry p (List.mem_of_find?_eq_some hfind), hip]
  | none =>
      have hnone : ∀ p ∈ kept, p.1 ≠ ip := by
        intro p hp
        simpa using List.find?_eq_none.mp hfind p hp
      rw [Option.map_none, Option.getD_none]
      rcases h.absent ip hnone with hfresh | hended
      · rw [hfresh]
      · -- the counter starts a new window, and so does an entry made at the origin
        have hnow : window ≤ now - (counters ip).windowStart := by omega
        have horigin : window ≤ now - RateLimitEntry.default.windowStart := by
          show window ≤ now - 0
          omega
        rw [countRequest, countRequest, if_pos hnow, if_pos horigin]

/-- What `isRateLimited_` does, written with one counter. -/
theorem isRateLimited_eq (maxRequests : Int) (now : Nat) (ip : Bytes) (entries : RateLimitMap) :
    isRateLimited_ maxRequests now ip entries =
      let kept := entries.filter fun p => ¬ secondsToNanos 300 < now - p.2.windowStart
      let entry := countRequest now (((kept.find? fun p => p.1 = ip).map (·.2)).getD .default)
      (decide (maxRequests < (entry.count : Int)),
        (ip, entry) :: kept.filter fun p => p.1 ≠ ip) := by
  unfold isRateLimited_ countRequest RateLimitEntry.default window
  dsimp only
  split <;> rfl

/-- **One request.**  The answer is that of the counter of its address, and the other
counters are left alone. -/
theorem CountsLike.step {counters : Bytes → RateLimitEntry} {now : Nat} {entries : RateLimitMap}
    (h : CountsLike counters now entries) (maxRequests : Int) (ip : Bytes) :
    (isRateLimited_ maxRequests now ip entries).1 =
        decide (maxRequests < ((countRequest now (counters ip)).count : Int)) ∧
      CountsLike (Function.update counters ip (countRequest now (counters ip))) now
        (isRateLimited_ maxRequests now ip entries).2 := by
  have hkept := h.evict
  have hcount := hkept.count ip
  rw [isRateLimited_eq]
  dsimp only
  rw [hcount]
  refine ⟨rfl, ?_, ?_⟩
  · intro p hp
    rcases List.mem_cons.mp hp with rfl | hp
    · rw [Function.update_self]
    · obtain ⟨hmem, hne⟩ := List.mem_filter.mp hp
      rw [Function.update_of_ne (by simpa using hne)]
      exact hkept.entry p hmem
  · intro other hother
    have hne : other ≠ ip := fun he => hother _ (List.mem_cons_self ..) he.symm
    rw [Function.update_of_ne hne]
    apply hkept.absent
    intro p hp hpo
    refine hother p (List.mem_cons_of_mem _ (List.mem_filter.mpr ⟨hp, ?_⟩)) hpo
    simpa [hpo] using hne

/-- **A run.**  Every address gets the answers of its own counter. -/
theorem answers_of_countsLike (maxRequests : Int) (ip : Bytes) {counters : Bytes → RateLimitEntry}
    {entries : RateLimitMap} {arrivals : List Arrival} {now : Nat}
    (h : CountsLike counters now entries) (hnow : ∀ a ∈ arrivals, now ≤ a.now)
    (hsorted : (arrivals.map (·.now)).Pairwise (· ≤ ·)) :
    answersTo ip (limit maxRequests entries arrivals).1 =
      referenceLimit maxRequests (counters ip) (timesOf ip arrivals) := by
  induction arrivals generalizing counters entries now with
  | nil => rfl
  | cons a arrivals ih =>
      rw [List.map_cons, List.pairwise_cons] at hsorted
      have hlater := h.later (hnow a (List.mem_cons_self ..))
      obtain ⟨hanswer, hnext⟩ := hlater.step maxRequests a.ipAddr
      have hrest := ih hnext
        (fun b hb => hsorted.1 b.now (List.mem_map_of_mem hb)) hsorted.2
      unfold answersTo timesOf at hrest ⊢
      rw [limit]
      by_cases hip : a.ipAddr = ip
      · subst hip
        rw [Function.update_self] at hrest
        simp only [List.filter_cons, decide_true, if_true, List.map_cons, referenceLimit, hanswer,
          hrest]
      · rw [Function.update_of_ne (Ne.symm hip)] at hrest
        simp only [List.filter_cons, hip, decide_false, Bool.false_eq_true, if_false, hrest]

theorem countsLike_empty : CountsLike (fun _ => .default) 0 [] :=
  ⟨by simp, fun _ _ => Or.inl rfl⟩

/-! ## The counter does not overflow -/

/-- Each counter has counted requests of its address that came in its window. -/
def CountedIn (seen : List Arrival) (counters : Bytes → RateLimitEntry) : Prop :=
  ∀ ip, (counters ip).count ≤ seen.countP fun a => decide (a.ipAddr = ip ∧
    (counters ip).windowStart ≤ a.now ∧ a.now < (counters ip).windowStart + window)

theorem CountedIn.step {seen : List Arrival} {counters : Bytes → RateLimitEntry} {a : Arrival}
    (h : CountedIn seen counters) (hstart : (counters a.ipAddr).windowStart ≤ a.now) :
    CountedIn (seen ++ [a])
      (Function.update counters a.ipAddr (countRequest a.now (counters a.ipAddr))) := by
  intro ip
  rw [List.countP_append, List.countP_singleton]
  by_cases hip : ip = a.ipAddr
  · subst hip
    have hcount := h a.ipAddr
    rw [Function.update_self, countRequest]
    by_cases hended : window ≤ a.now - (counters a.ipAddr).windowStart
    · rw [if_pos hended]
      simp [window, secondsToNanos]
    · rw [if_neg hended, if_pos (by simp; omega)]
      dsimp only
      omega
  · rw [Function.update_of_ne hip]
    exact (h ip).trans (Nat.le_add_right _ _)

theorem windowStart_countRequest {now : Nat} {entry : RateLimitEntry} (h : entry.windowStart ≤ now) :
    (countRequest now entry).windowStart ≤ now := by
  unfold countRequest
  split
  · exact le_refl _
  · exact h

/-- The counters after a run, and what they have counted. -/
theorem counted_of_limit (maxRequests : Int) {counters : Bytes → RateLimitEntry}
    {entries : RateLimitMap} {seen arrivals : List Arrival} {now : Nat}
    (h : CountsLike counters now entries) (hcounted : CountedIn seen counters)
    (hstart : ∀ ip, (counters ip).windowStart ≤ now) (hnow : ∀ a ∈ arrivals, now ≤ a.now)
    (hsorted : (arrivals.map (·.now)).Pairwise (· ≤ ·)) :
    ∃ counters', CountedIn (seen ++ arrivals) counters' ∧
      ∀ p ∈ (limit maxRequests entries arrivals).2, p.2 = counters' p.1 := by
  induction arrivals generalizing counters entries seen now with
  | nil =>
      refine ⟨counters, ?_, h.entry⟩
      rwa [List.append_nil]
  | cons a arrivals ih =>
      rw [List.map_cons, List.pairwise_cons] at hsorted
      have hle := hnow a (List.mem_cons_self ..)
      have hlater := h.later hle
      have hbefore : ∀ ip, (counters ip).windowStart ≤ a.now := fun ip => (hstart ip).trans hle
      have hnext := ih (hlater.step maxRequests a.ipAddr).2 (hcounted.step (hbefore a.ipAddr))
        (fun ip => ?_) (fun b hb => hsorted.1 b.now (List.mem_map_of_mem hb)) hsorted.2
      · rw [List.append_assoc] at hnext
        exact hnext
      · by_cases hip : ip = a.ipAddr
        · subst hip
          rw [Function.update_self]
          exact windowStart_countRequest (hbefore a.ipAddr)
        · rw [Function.update_of_ne hip]
          exact hbefore ip

/-- Where no window holds `2 ^ 31` requests of one address, every count is an `int`. -/
theorem counts_fit (maxRequests : Int) {arrivals : List Arrival}
    (hsorted : (arrivals.map (·.now)).Pairwise (· ≤ ·))
    (hfew : ∀ ip start, (arrivals.countP fun a => decide (a.ipAddr = ip ∧ start ≤ a.now ∧
      a.now < start + window)) < 2 ^ 31) :
    ∀ p ∈ (limit maxRequests [] arrivals).2, p.2.count < 2 ^ 31 := by
  intro p hp
  have hnone : CountedIn [] fun _ => .default := fun _ => Nat.zero_le _
  obtain ⟨counters, hcounted, hentries⟩ := counted_of_limit maxRequests countsLike_empty hnone
    (fun _ => Nat.zero_le _) (fun _ _ => Nat.zero_le _) hsorted
  rw [hentries p hp]
  exact (hcounted p.1).trans_lt (hfew p.1 _)

/-- **Eviction and other addresses are invisible to the limiter.**  Every address gets
the answers of a counter that serves it alone and is never dropped; and where no window
holds `2 ^ 31` requests of one address, every count is an `int`. -/
theorem eviction_invisible (maxRequests : Int) (arrivals : List Arrival)
    (hsorted : (arrivals.map (·.now)).Pairwise (· ≤ ·))
    (hfew : ∀ ip start, (arrivals.countP fun a => decide (a.ipAddr = ip ∧ start ≤ a.now ∧
      a.now < start + window)) < 2 ^ 31) :
    (∀ ip, answersTo ip (limit maxRequests [] arrivals).1 =
      referenceLimit maxRequests .default (timesOf ip arrivals)) ∧
    ∀ p ∈ (limit maxRequests [] arrivals).2, p.2.count < 2 ^ 31 := by
  refine ⟨fun ip => ?_, counts_fit maxRequests hsorted hfew⟩
  exact answers_of_countsLike maxRequests ip countsLike_empty (fun _ _ => Nat.zero_le _) hsorted

/-- Two addresses, one of which is dropped and comes back. -/
def quietArrivals : List Arrival :=
  [⟨bytes "10.0.0.1", secondsToNanos 10⟩, ⟨bytes "10.0.0.2", secondsToNanos 20⟩,
    ⟨bytes "10.0.0.1", secondsToNanos 30⟩, ⟨bytes "10.0.0.2", secondsToNanos 400⟩,
    ⟨bytes "10.0.0.1", secondsToNanos 401⟩]

theorem eviction_invisible_example :
    (∀ ip, answersTo ip (limit 1 [] quietArrivals).1 =
      referenceLimit 1 .default (timesOf ip quietArrivals)) ∧
    ∀ p ∈ (limit 1 [] quietArrivals).2, p.2.count < 2 ^ 31 :=
  eviction_invisible 1 quietArrivals (by decide) fun ip start =>
    lt_of_le_of_lt List.countP_le_length (by decide)

/-! ## The sliding limit -/

theorem passed_cons (ip : Bytes) (a : Arrival) (refused : Bool) (rest : List (Arrival × Bool)) :
    passed ip ((a, refused) :: rest) =
      (if a.ipAddr = ip ∧ refused = false then [a.now] else []) ++ passed ip rest := by
  unfold passed
  by_cases h : a.ipAddr = ip ∧ refused = false
  · rw [if_pos h, List.filter_cons_of_pos (by simpa using h)]
    rfl
  · rw [if_neg h, List.filter_cons_of_neg (by simpa using h)]
    rfl

theorem take_snoc (n : Nat) (l : List Nat) (t : Nat) :
    (l ++ [t]).take n = l.take n ++ if l.length + 1 ≤ n then [t] else [] := by
  rw [List.take_append]
  split
  · rw [List.take_of_length_le (show [t].length ≤ n - l.length by simp; omega)]
  · rw [Nat.sub_eq_zero_of_le (by omega), List.take_zero]

/-- What the counter does with a request, as the windows see it. -/
theorem admitted_count (n : Nat) {entry : RateLimitEntry} {cur : List Nat} (t : Nat)
    (ts : List Nat) (hcur : entry.count = cur.length) :
    ∃ cur', (countRequest t entry).count = cur'.length ∧
      ∀ rest, cur'.take n ++ rest =
          admitted n (windows window (countRequest t entry).windowStart cur' ts) →
        cur.take n ++ ((if (countRequest t entry).count ≤ n then [t] else []) ++ rest) =
          admitted n (windows window entry.windowStart cur (t :: ts)) := by
  unfold countRequest
  rw [windows]
  by_cases hended : entry.windowStart + window ≤ t
  · rw [if_pos (show window ≤ t - entry.windowStart by omega), if_pos hended]
    refine ⟨[t], rfl, fun rest hrest => ?_⟩
    rw [admitted, List.flatMap_cons]
    refine congrArg (cur.take n ++ ·) ?_
    rw [← admitted, ← hrest]
    refine congrArg (· ++ rest) ?_
    simpa using (take_snoc n [] t).symm
  · have hopen : ¬ window ≤ t - entry.windowStart := by
      simp only [window, secondsToNanos] at hended ⊢
      omega
    rw [if_neg hopen, if_neg hended]
    refine ⟨cur ++ [t], by simp [hcur], fun rest hrest => ?_⟩
    rw [← hrest, take_snoc, List.append_assoc, hcur]

/-- The requests of one address that get through are those its counter admits. -/
theorem passed_of_countsLike (n : Nat) (ip : Bytes) {counters : Bytes → RateLimitEntry}
    {entries : RateLimitMap} {arrivals : List Arrival} {now : Nat} {cur : List Nat}
    (h : CountsLike counters now entries) (hnow : ∀ a ∈ arrivals, now ≤ a.now)
    (hsorted : (arrivals.map (·.now)).Pairwise (· ≤ ·)) (hcur : (counters ip).count = cur.length) :
    cur.take n ++ passed ip (limit (n : Int) entries arrivals).1 =
      admitted n (windows window (counters ip).windowStart cur (timesOf ip arrivals)) := by
  induction arrivals generalizing counters entries now cur with
  | nil => simp [limit, passed, timesOf, windows, admitted]
  | cons a arrivals ih =>
      rw [List.map_cons, List.pairwise_cons] at hsorted
      have hlater := h.later (hnow a (List.mem_cons_self ..))
      obtain ⟨hanswer, hnext⟩ := hlater.step (n : Int) a.ipAddr
      have hrest : ∀ b ∈ arrivals, a.now ≤ b.now :=
        fun b hb => hsorted.1 b.now (List.mem_map_of_mem hb)
      rw [limit, passed_cons, hanswer]
      by_cases hip : a.ipAddr = ip
      · subst hip
        have htimes : timesOf a.ipAddr (a :: arrivals) = a.now :: timesOf a.ipAddr arrivals := by
          simp [timesOf]
        obtain ⟨cur', hcur', hadmit⟩ := admitted_count n a.now (timesOf a.ipAddr arrivals) hcur
        have hpassed := ih hnext hrest hsorted.2 (by rwa [Function.update_self])
        rw [Function.update_self] at hpassed
        rw [htimes, ← hadmit _ hpassed]
        simp
      · have htimes : timesOf ip (a :: arrivals) = timesOf ip arrivals := by
          simp [timesOf, hip]
        have hpassed := ih hnext hrest hsorted.2 (by rwa [Function.update_of_ne (Ne.symm hip)])
        rw [Function.update_of_ne (Ne.symm hip)] at hpassed
        rw [htimes, if_neg (fun hp => hip hp.1), List.nil_append, hpassed]

/-- **The sliding limit.**  The requests of each address that get through keep it
exactly when every two windows of the address in a row keep apart.  Every count is an
`int` where no window holds `2 ^ 31` requests of one address. -/
theorem slides_iff_apart (n : Nat) (arrivals : List Arrival)
    (hsorted : (arrivals.map (·.now)).Pairwise (· ≤ ·)) :
    ((∀ ip, Slides window n (passed ip (limit (n : Int) [] arrivals).1)) ↔
      ∀ ip, (windows window 0 [] (timesOf ip arrivals)).IsChain (Apart window n)) ∧
    ((∀ ip start, (arrivals.countP fun a => decide (a.ipAddr = ip ∧ start ≤ a.now ∧
        a.now < start + window)) < 2 ^ 31) →
      ∀ p ∈ (limit (n : Int) [] arrivals).2, p.2.count < 2 ^ 31) := by
  refine ⟨forall_congr' fun ip => ?_, counts_fit n hsorted⟩
  have hpassed := passed_of_countsLike n ip countsLike_empty (fun _ _ => Nat.zero_le _) hsorted
    (show RateLimitEntry.default.count = ([] : List Nat).length from rfl)
  rw [List.take_nil, List.nil_append] at hpassed
  have htimes : (timesOf ip arrivals).Pairwise (· ≤ ·) :=
    hsorted.sublist ((List.filter_sublist).map _)
  rw [hpassed]
  exact slides_iff (windowed_windows (by decide) (by simpa using htimes) (by simp)
    (fun _ _ => Nat.zero_le _))

theorem slides_iff_apart_example :
    ((∀ ip, Slides window 1 (passed ip (limit (1 : Nat) [] quietArrivals).1)) ↔
      ∀ ip, (windows window 0 [] (timesOf ip quietArrivals)).IsChain (Apart window 1)) ∧
    ∀ p ∈ (limit (1 : Nat) [] quietArrivals).2, p.2.count < 2 ^ 31 :=
  ⟨(slides_iff_apart 1 quietArrivals (by decide)).1,
    (slides_iff_apart 1 quietArrivals (by decide)).2 fun _ _ =>
      lt_of_le_of_lt List.countP_le_length (by decide)⟩

/-- Two requests at the end of a window and two at the start of the next. -/
def rushedArrivals : List Arrival :=
  [⟨bytes "10.0.0.1", secondsToNanos 100⟩, ⟨bytes "10.0.0.1", secondsToNanos 159⟩,
    ⟨bytes "10.0.0.1", secondsToNanos 160⟩, ⟨bytes "10.0.0.1", secondsToNanos 161⟩]

/-- A limit of two lets three requests through within two seconds. -/
theorem not_slides : ¬ ∀ (n : Nat), 1 ≤ n → ∀ arrivals : List Arrival,
    (arrivals.map (·.now)).Pairwise (· ≤ ·) →
      ∀ ip, Slides window n (passed ip (limit (n : Int) [] arrivals).1) := by
  intro h
  have hslides := h 2 (by decide) rushedArrivals (by decide) (bytes "10.0.0.1")
    (secondsToNanos 159) (secondsToNanos 161) (by decide)
  revert hslides
  decide

/-! ## Runs of the server -/

theorem limit_append (maxRequests : Int) (entries : RateLimitMap) (l l' : List Arrival) :
    limit maxRequests entries (l ++ l') =
      ((limit maxRequests entries l).1 ++ (limit maxRequests (limit maxRequests entries l).2 l').1,
        (limit maxRequests (limit maxRequests entries l).2 l').2) := by
  induction l generalizing entries with
  | nil => rfl
  | cons a l ih =>
      rw [List.cons_append, limit, limit, ih]
      rfl

/-- The request a call of the limiter is about, with the answer. -/
def limiterCall (s : ServerState) : Label Op Res Task → Option (Arrival × Bool)
  | .call _ (.isRateLimited ip) refused => some (⟨ip, s.steadyClock⟩, refused)
  | _ => none

/-- The calls of the limiter in a run. -/
def limiterCalls (tr : ServerTrace) : List (Arrival × Bool) :=
  tr.filterMap fun x => limiterCall x.1.state x.2

section Runs

variable [Primitives] [FloatFormat] {cfg : Config} {tick : Clock → Clock → Prop}

omit [Primitives] in
/-- A call leaves the steady clock, and only the limiter changes the entries. -/
theorem rateLimitMap_exec {s s' : ServerState} {o : Op} {r : Res o} (h : exec cfg o s r s') :
    s'.steadyClock = s.steadyClock ∧
      ((∀ ip, o ≠ .isRateLimited ip) → s'.rateLimitMap = s.rateLimitMap) := by
  rcases exec_touches h with ⟨t, -, hs'⟩ | ⟨t, -, hs'⟩ | ⟨ip, rfl, hs'⟩ | hs'
  · rw [hs']
    exact ⟨rfl, fun _ => rfl⟩
  · rw [hs']
    exact ⟨rfl, fun _ => rfl⟩
  · rw [hs']
    exact ⟨rfl, fun hne => absurd rfl (hne ip)⟩
  · rw [hs']
    exact ⟨rfl, fun _ => rfl⟩

/-- What a step that is not a restart does to the entries. -/
theorem rateLimitMap_step {w w' : ServerSystem} {l : Label Op Res Task}
    (h : ServerStep cfg tick w l w') (hl : l ≠ .restart) :
    w.state.steadyClock ≤ w'.state.steadyClock ∧
      limit cfg.rateLimitMaxRequests w.state.rateLimitMap
          ((limiterCall w.state l).toList.map (·.1)) =
        ((limiterCall w.state l).toList, w'.state.rateLimitMap) := by
  cases h with
  | start t => exact ⟨le_refl _, rfl⟩
  | env henv =>
      cases henv with
      | steadyClock hle => exact ⟨hle, rfl⟩
      | _ => exact ⟨le_refl _, rfl⟩
  | restart hrestart => exact absurd rfl hl
  | @call s s' ths i t past o k r hget hexec =>
      obtain ⟨hclock, hsame⟩ := rateLimitMap_exec hexec
      refine ⟨hclock.ge, ?_⟩
      cases o with
      | isRateLimited ip =>
          obtain ⟨rfl, rfl⟩ := hexec
          rfl
      | _ =>
          show ([], s.rateLimitMap) = ([], s'.rateLimitMap)
          rw [hsame (by simp)]

/-- **In a run of the server without a restart the limiter answers as `limit` says.** -/
theorem limit_of_run {s : ServerState} {tr : ServerTrace} {w : ServerSystem}
    (h : ServerRun cfg tick ⟨s, []⟩ tr w) (hstart : s.rateLimitMap = [])
    (hrestart : ∀ x ∈ tr, x.2 ≠ .restart) :
    limit cfg.rateLimitMaxRequests [] ((limiterCalls tr).map (·.1)) =
        (limiterCalls tr, w.state.rateLimitMap) ∧
      ((limiterCalls tr).map (·.1.now)).Pairwise (· ≤ ·) ∧
        ∀ p ∈ limiterCalls tr, p.1.now ≤ w.state.steadyClock := by
  induction h with
  | nil =>
      refine ⟨?_, List.Pairwise.nil, by simp [limiterCalls]⟩
      rw [hstart]
      rfl
  | @snoc tr v l u hrun hstep ih =>
      obtain ⟨hlimit, hsorted, hbefore⟩ := ih fun x hx => hrestart x (List.mem_append_left _ hx)
      obtain ⟨hclock, hentries⟩ := rateLimitMap_step hstep (hrestart (v, l) (by simp))
      have hcalls : limiterCalls (tr ++ [(v, l)]) =
          limiterCalls tr ++ (limiterCall v.state l).toList := by
        rw [limiterCalls, List.filterMap_append]
        refine congrArg _ ?_
        cases hcall : limiterCall v.state l <;> simp [hcall]
      have hnow : ∀ p ∈ (limiterCall v.state l).toList, p.1.now = v.state.steadyClock := by
        intro p hp
        unfold limiterCall at hp
        split at hp
        · rw [Option.toList_some, List.mem_singleton] at hp
          rw [hp]
        · cases hp
      rw [hcalls, List.map_append, List.map_append, limit_append, hlimit, hentries]
      refine ⟨rfl, ?_, ?_⟩
      · rw [List.pairwise_append]
        refine ⟨hsorted, ?_, ?_⟩
        · cases limiterCall v.state l with
          | none => exact List.Pairwise.nil
          | some p => exact List.pairwise_singleton _ _
        · intro t ht t' ht'
          obtain ⟨p, hp, rfl⟩ := List.mem_map.mp ht
          obtain ⟨p', hp', rfl⟩ := List.mem_map.mp ht'
          rw [hnow p' hp']
          exact hbefore p hp
      · intro p hp
        rcases List.mem_append.mp hp with hp | hp
        · exact (hbefore p hp).trans hclock
        · rw [hnow p hp]
          exact hclock

end Runs

end Kds
