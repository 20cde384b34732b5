import Mathlib.Data.List.Dedup
import TemplateCensus.Proofs.UnitCache

/-! What a cache holds after any requests, told by their history. The keys in the cache are those of
the most recent successes, as many as there is room for, and each value is that of the last time the
work for its key was done. -/

namespace TemplateCensus.UnitCache
variable {ε α : Type}

structure Request (ε α : Type) where
  key : String
  work : Unit → Except ε α

structure Answered (ε α : Type) extends Request ε α where
  result : Except ε α
  ran : Bool

structure Session (ε α : Type) where
  cache : UnitCache α
  log : List (Answered ε α) := []

/-- The keys of the successful requests, the most recent first. -/
def recent (log : List (Answered ε α)) : List String :=
  ((log.filter (·.result.isOk)).map (·.key)).dedup.reverse

def lastRun (log : List (Answered ε α)) (k : String) : Option (Except ε α) :=
  (log.filter fun r => r.ran && r.key = k).getLast?.map (·.work ())

def keys (c : UnitCache α) : List String := c.entries.map (·.1)

namespace Session
variable {s : Session ε α} {q : Request ε α}

def answer (s : Session ε α) (q : Request ε α) : Session ε α :=
  let f := s.cache.fetch q.key q.work
  ⟨f.cache, s.log ++ [⟨q, f.result, f.ran⟩]⟩

def answerAll (s : Session ε α) (qs : List (Request ε α)) : Session ε α := qs.foldl answer s

end Session

/-! ## Recency -/

theorem dedup_concat (ks : List String) (k : String) :
    (ks ++ [k]).dedup = ks.dedup.filter (· ≠ k) ++ [k] := by
  induction ks with
  | nil => rfl
  | cons l ks ih =>
    rw [List.cons_append]
    by_cases hl : l = k
    · subst hl
      rw [List.dedup_cons_of_mem (by simp), ih]
      by_cases hmem : l ∈ ks
      · rw [List.dedup_cons_of_mem hmem]
      · rw [List.dedup_cons_of_notMem hmem, List.filter_cons_of_neg (by simp)]
    · by_cases hmem : l ∈ ks
      · rw [List.dedup_cons_of_mem (by simp [hmem]), List.dedup_cons_of_mem hmem, ih]
      · rw [List.dedup_cons_of_notMem (by simp [hmem, hl]), List.dedup_cons_of_notMem hmem, ih,
          List.filter_cons_of_pos (by simpa using hl), List.cons_append]

theorem take_filter_take {ks : List String} (h : ks.Nodup) (k : String) (n : Nat) :
    ((ks.take (n + 1)).filter (· ≠ k)).take n = (ks.filter (· ≠ k)).take n := by
  induction ks generalizing n with
  | nil => simp
  | cons l ks ih =>
    obtain ⟨hl, hks⟩ := List.nodup_cons.mp h
    rw [List.take_succ_cons]
    by_cases hk : l = k
    · -- the key is this one, so it is not among the others
      have hothers : ∀ m ∈ ks, decide (m ≠ k) = true := fun m hm =>
        decide_eq_true fun heq => hl (hk.trans heq.symm ▸ hm)
      have htake : (ks.take n).filter (· ≠ k) = ks.take n :=
        List.filter_eq_self.mpr fun m hm => hothers m (List.mem_of_mem_take hm)
      rw [List.filter_cons_of_neg (by simpa using hk), List.filter_cons_of_neg (by simpa using hk),
        htake, List.filter_eq_self.mpr hothers, List.take_take, Nat.min_self]
    · rw [List.filter_cons_of_pos (by simpa using hk), List.filter_cons_of_pos (by simpa using hk)]
      cases n with
      | zero => rfl
      | succ n => rw [List.take_succ_cons, List.take_succ_cons, ih hks]

theorem recent_concat (log : List (Answered ε α)) {r : Answered ε α} {a : α}
    (h : r.result = .ok a) :
    recent (log ++ [r]) = r.key :: (recent log).filter (· ≠ r.key) := by
  have hok : r.result.isOk = true := h ▸ rfl
  rw [recent, List.filter_append, List.filter_cons, if_pos hok, List.filter_nil, List.map_append,
    List.map_singleton, dedup_concat, List.reverse_append, recent, List.filter_reverse]
  rfl

theorem recent_concat_of_error (log : List (Answered ε α)) {r : Answered ε α} {e : ε}
    (h : r.result = .error e) : recent (log ++ [r]) = recent log := by
  have herror : ¬ r.result.isOk = true := h ▸ Bool.false_ne_true
  rw [recent, List.filter_append, List.filter_cons, if_neg herror, List.filter_nil,
    List.append_nil, recent]

theorem nodup_recent (log : List (Answered ε α)) : (recent log).Nodup :=
  List.nodup_reverse.mpr (List.nodup_dedup _)

theorem keys_use {c : UnitCache α} {ks : List String} (hks : ks.Nodup)
    (h : c.keys = ks.take c.capacity) (k : String) (a : α) :
    (c.use k a).keys = (k :: ks.filter (· ≠ k)).take c.capacity := by
  have hfilter : (c.entries.filter (·.1 ≠ k)).map (·.1) = c.keys.filter (· ≠ k) := by
    rw [keys, List.filter_map]
    rfl
  rw [keys, use, List.map_take, List.map_cons, hfilter, h]
  cases c.capacity with
  | zero => rfl
  | succ n => rw [List.take_succ_cons, List.take_succ_cons, take_filter_take hks]

/-! ## Runs -/

theorem lastRun_concat (log : List (Answered ε α)) {r : Answered ε α} (h : r.ran = true) :
    lastRun (log ++ [r]) r.key = some (r.work ()) := by
  rw [lastRun, List.filter_append, List.filter_cons_of_pos (by simp [h]), List.filter_nil,
    List.getLast?_concat]
  rfl

theorem lastRun_concat_of_ne (log : List (Answered ε α)) {r : Answered ε α} {k : String}
    (h : r.ran = false ∨ r.key ≠ k) : lastRun (log ++ [r]) k = lastRun log k := by
  have hneg : ¬ (r.ran && decide (r.key = k)) = true := by
    rcases h with h | h <;> simp [h]
  rw [lastRun, List.filter_append, List.filter_cons, if_neg hneg, List.filter_nil,
    List.append_nil, lastRun]

/-! ## Requests -/

section Fetch
variable {c : UnitCache α} {k : String} {work : Unit → Except ε α} {a : α} {e : ε}

theorem fetch_of_hit (h : c.entries.lookup k = some a) :
    c.fetch k work = ⟨.ok a, c.use k a, false⟩ := by
  rw [fetch, h]

theorem fetch_of_success (h : c.entries.lookup k = none) (hwork : work () = .ok a) :
    c.fetch k work = ⟨.ok a, c.use k a, true⟩ := by
  rw [fetch, h]
  simp only [hwork]

theorem fetch_of_failure (h : c.entries.lookup k = none) (hwork : work () = .error e) :
    c.fetch k work = ⟨.error e, c, true⟩ := by
  rw [fetch, h]
  simp only [hwork]

theorem fetch_of_mem_keys (h : k ∈ c.keys) (work : Unit → Except ε α) :
    ∃ a, (k, a) ∈ c.entries ∧ c.fetch k work = ⟨.ok a, c.use k a, false⟩ := by
  obtain ⟨a, ha⟩ := Option.isSome_iff_exists.mp (Keyed.isSome_lookup_iff.mpr h)
  exact ⟨a, Keyed.mem_of_lookup ha, fetch_of_hit ha⟩

theorem fetch_of_notMem_keys (h : k ∉ c.keys) (work : Unit → Except ε α) :
    (c.fetch k work).ran = true ∧ (c.fetch k work).result = work () ∧
      ∀ e, work () = .error e → (c.fetch k work).cache = c := by
  have hnone : c.entries.lookup k = none :=
    Option.not_isSome_iff_eq_none.mp (mt Keyed.isSome_lookup_iff.mp h)
  cases hwork : work () with
  | ok a =>
    rw [fetch_of_success hnone hwork]
    exact ⟨rfl, rfl, nofun⟩
  | error e =>
    rw [fetch_of_failure hnone hwork]
    exact ⟨rfl, rfl, fun _ _ => rfl⟩

end Fetch

namespace Session
variable {s : Session ε α}

structure Exact (s : Session ε α) : Prop where
  keys : s.cache.keys = (recent s.log).take s.cache.capacity
  values : ∀ e ∈ s.cache.entries, lastRun s.log e.1 = some (.ok e.2)

theorem Exact.use (h : s.Exact) {r : Answered ε α} {a : α} (hr : r.result = .ok a)
    (hrun : lastRun (s.log ++ [r]) r.key = some (.ok a)) :
    Exact ⟨s.cache.use r.key a, s.log ++ [r]⟩ where
  keys := by
    rw [keys_use (nodup_recent s.log) h.keys, recent_concat s.log hr]
    rfl
  values e he := by
    rcases List.mem_cons.mp (List.mem_of_mem_take he) with rfl | he
    · exact hrun
    · obtain ⟨hmem, hne⟩ := List.mem_filter.mp he
      rw [lastRun_concat_of_ne _ (.inr (Ne.symm (of_decide_eq_true hne))), h.values e hmem]

theorem Exact.fail (h : s.Exact) {r : Answered ε α} {e : ε} (hr : r.result = .error e)
    (hkey : r.key ∉ s.cache.keys) : Exact ⟨s.cache, s.log ++ [r]⟩ where
  keys := h.keys.trans (by rw [recent_concat_of_error s.log hr])
  values e he := by
    have hne : r.key ≠ e.1 := fun heq => hkey (heq ▸ List.mem_map_of_mem he)
    rw [lastRun_concat_of_ne _ (.inr hne), h.values e he]

theorem Exact.answer (h : s.Exact) (q : Request ε α) : (s.answer q).Exact := by
  unfold Session.answer
  cases hk : s.cache.entries.lookup q.key with
  | some a =>
    rw [fetch_of_hit hk]
    have hrun : lastRun s.log q.key = some (.ok a) := h.values _ (Keyed.mem_of_lookup hk)
    exact h.use (r := ⟨q, .ok a, false⟩) rfl ((lastRun_concat_of_ne _ (.inl rfl)).trans hrun)
  | none =>
    cases hwork : q.work () with
    | ok a =>
      rw [fetch_of_success hk hwork]
      exact h.use (r := ⟨q, .ok a, true⟩) rfl ((lastRun_concat _ rfl).trans (congrArg some hwork))
    | error e =>
      rw [fetch_of_failure hk hwork]
      have hkey : q.key ∉ s.cache.keys := fun hmem => by
        have hsome := Keyed.isSome_lookup_iff.mpr hmem
        rw [hk] at hsome
        cases hsome
      exact h.fail (r := ⟨q, .error e, true⟩) rfl hkey

theorem Exact.answerAll (h : s.Exact) (qs : List (Request ε α)) : (s.answerAll qs).Exact := by
  induction qs generalizing s with
  | nil => exact h
  | cons q qs ih => exact ih (h.answer q)

theorem capacity_answer (s : Session ε α) (q : Request ε α) :
    (s.answer q).cache.capacity = s.cache.capacity := by
  unfold Session.answer fetch
  split
  · rfl
  · split <;> rfl

theorem capacity_answerAll (s : Session ε α) (qs : List (Request ε α)) :
    (s.answerAll qs).cache.capacity = s.cache.capacity := by
  induction qs generalizing s with
  | nil => rfl
  | cons q qs ih => exact (ih (s.answer q)).trans (capacity_answer s q)

end Session

/-- After any requests a new cache holds the keys of the most recent successes, in their order, as
many as there is room for. The next request does its work only if its key is not among them. If it
is, the answer is the value of the last time the work for it was done; if the work fails, the error
is the answer and nothing changes. -/
theorem holds_recent_successes {capacity : Nat} (h : 1 ≤ capacity) (qs : List (Request ε α))
    (q : Request ε α) :
    ∃ c : UnitCache α, ofSize? capacity = some c ∧
      let s := Session.answerAll ⟨c, []⟩ qs
      let next := s.cache.fetch q.key q.work
      s.cache.keys = (recent s.log).take capacity ∧
        s.cache.size = min capacity (recent s.log).length ∧
        (next.ran = true ↔ q.key ∉ s.cache.keys) ∧
        (q.key ∈ s.cache.keys → next.result.isOk = true ∧
          lastRun s.log q.key = some next.result) ∧
        (next.ran = true → next.result = q.work () ∧
          ∀ e, q.work () = .error e → next.cache = s.cache) := by
  refine ⟨⟨capacity, []⟩, if_pos (Int.natCast_pos.mpr h), ?_⟩
  intro s next
  have hempty : Session.Exact (⟨⟨capacity, []⟩, []⟩ : Session ε α) :=
    ⟨List.take_nil.symm, fun _ he => nomatch he⟩
  have hexact : s.Exact := hempty.answerAll qs
  have hcapacity : s.cache.capacity = capacity := Session.capacity_answerAll _ qs
  have hkeys : s.cache.keys = (recent s.log).take capacity := by rw [hexact.keys, hcapacity]
  have hsize : s.cache.size = min capacity (recent s.log).length := by
    rw [← List.length_take, ← hkeys, keys, List.length_map, size]
  by_cases hmem : q.key ∈ s.cache.keys
  · obtain ⟨a, ha, hnext⟩ := fetch_of_mem_keys hmem q.work
    replace hnext : next = ⟨.ok a, s.cache.use q.key a, false⟩ := hnext
    rw [hnext]
    exact ⟨hkeys, hsize, iff_of_false Bool.false_ne_true (not_not_intro hmem),
      fun _ => ⟨rfl, hexact.values _ ha⟩, fun hran => nomatch hran⟩
  · obtain ⟨hran, hresult⟩ := fetch_of_notMem_keys hmem q.work
    exact ⟨hkeys, hsize, iff_of_true hran hmem, fun hmem' => absurd hmem' hmem,
      fun _ => hresult⟩

def visits : List (Request String Nat) :=
  [⟨"a", fun _ => .ok 1⟩, ⟨"b", fun _ => .ok 2⟩, ⟨"a", fun _ => .error "unread"⟩,
    ⟨"c", fun _ => .ok 3⟩, ⟨"b", fun _ => .error "gone"⟩]

theorem holds_recent_successes_visits : 1 ≤ 2 ∧ ∃ c : UnitCache Nat, ofSize? 2 = some c ∧
    let s := Session.answerAll ⟨c, []⟩ visits
    let next := s.cache.fetch "a" fun _ => (.ok 9 : Except String Nat)
    s.cache.keys = ["c", "a"] ∧ s.cache.size = 2 ∧ next.ran = false ∧
      lastRun s.log "a" = some next.result ∧ lastRun s.log "b" = some (.error "gone") := by
  have hroom : 1 ≤ 2 := by decide
  obtain ⟨c, hc, hkeys, hsize, hran, hhit, -⟩ :=
    holds_recent_successes hroom visits ⟨"a", fun _ => .ok 9⟩
  obtain rfl : ⟨2, []⟩ = c := Option.some.inj hc
  have hrecent : recent (Session.answerAll ⟨⟨2, []⟩, []⟩ visits).log = ["c", "a", "b"] := by
    decide +kernel
  rw [hrecent] at hkeys hsize
  have hmem : "a" ∈ (Session.answerAll ⟨⟨2, []⟩, []⟩ visits).cache.keys :=
    hkeys ▸ List.mem_cons_of_mem _ List.mem_cons_self
  exact ⟨hroom, _, hc, hkeys, hsize, Bool.eq_false_iff.mpr fun h => hran.mp h hmem,
    (hhit hmem).2, rfl⟩

end TemplateCensus.UnitCache
