import Mathlib.Logic.Function.Basic
import TemplateCensus.Proofs.UnitCache

/-! Requests to a cache that run at the same time. A request that finds nothing opens a flight for
its key, or joins the one that is open; only the leader of a flight does the work, after another
look into the cache. Steps of different requests may alternate in any order. With room for all keys
the work on a key succeeds at most once, and every request is answered by a run of the work that it
took part in or that succeeded. -/

namespace TemplateCensus.Flights
variable {ι ε α : Type}

inductive Phase (ι ε α : Type) where
  | start
  | missed
  | leading
  | working
  | storing (value : α)
  | landing (result : Except ε α)
  | waiting (leader : ι)
  | returned (result : Except ε α)

namespace Phase

def isAloft : Phase ι ε α → Bool
  | leading | working | storing _ | landing _ => true
  | start | missed | waiting _ | returned _ => false

def awaits [DecidableEq ι] (leader : ι) : Phase ι ε α → Bool
  | waiting l => l = leader
  | _ => false

end Phase

structure State (ι ε α : Type) where
  cache : UnitCache α
  flight : String → Option ι
  phase : ι → Phase ι ε α

/-- The steps that requests take. What the work gives is part of the step: it may give something
else every time. -/
inductive Move (ι ε α : Type) where
  | look (request : ι)
  | takeOff (request : ι)
  | join (request leader : ι)
  | lookAgain (request : ι)
  | work (request : ι) (result : Except ε α)
  | store (request : ι)
  | land (request : ι)

def Move.request : Move ι ε α → ι
  | look c | takeOff c | join c _ | lookAgain c | work c _ | store c | land c => c

namespace State
variable [DecidableEq ι]

def initial (capacity : Nat) : State ι ε α := ⟨⟨capacity, []⟩, fun _ => none, fun _ => .start⟩

def advance (s : State ι ε α) (c : ι) (p : Phase ι ε α) : State ι ε α :=
  { s with phase := Function.update s.phase c p }

def use (s : State ι ε α) (k : String) (a : α) : State ι ε α :=
  { s with cache := s.cache.use k a }

def takeOff (s : State ι ε α) (k : String) (c : ι) : State ι ε α :=
  { s with flight := Function.update s.flight k (some c) }

def land (s : State ι ε α) (k : String) (c : ι) (r : Except ε α) : State ι ε α :=
  { s with
    flight := Function.update s.flight k none
    phase := fun d => if d = c || (s.phase d).awaits c then .returned r else s.phase d }

end State

inductive Step [DecidableEq ι] (key : ι → String) :
    State ι ε α → Move ι ε α → State ι ε α → Prop
  | hit {s c a} : s.phase c = .start → s.cache.entries.lookup (key c) = some a →
    Step key s (.look c) ((s.use (key c) a).advance c (.returned (.ok a)))
  | miss {s c} : s.phase c = .start → s.cache.entries.lookup (key c) = none →
    Step key s (.look c) (s.advance c .missed)
  | takeOff {s c} : s.phase c = .missed → s.flight (key c) = none →
    Step key s (.takeOff c) ((s.takeOff (key c) c).advance c .leading)
  | join {s c l} : s.phase c = .missed → s.flight (key c) = some l →
    Step key s (.join c l) (s.advance c (.waiting l))
  | hitAgain {s c a} : s.phase c = .leading → s.cache.entries.lookup (key c) = some a →
    Step key s (.lookAgain c) ((s.use (key c) a).advance c (.landing (.ok a)))
  | missAgain {s c} : s.phase c = .leading → s.cache.entries.lookup (key c) = none →
    Step key s (.lookAgain c) (s.advance c .working)
  | succeed {s c a} : s.phase c = .working →
    Step key s (.work c (.ok a)) (s.advance c (.storing a))
  | fail {s c e} : s.phase c = .working →
    Step key s (.work c (.error e)) (s.advance c (.landing (.error e)))
  | store {s c a} : s.phase c = .storing a →
    Step key s (.store c) ((s.use (key c) a).advance c (.landing (.ok a)))
  | land {s c r} : s.phase c = .landing r → Step key s (.land c) (s.land (key c) c r)

inductive Steps [DecidableEq ι] (key : ι → String) (s : State ι ε α) :
    List (Move ι ε α) → State ι ε α → Prop
  | none : Steps key s [] s
  | snoc {ms m t u} : Steps key s ms t → Step key t m u → Steps key s (ms ++ [m]) u

section Trace
variable (key : ι → String) (ms : List (Move ι ε α))

def Move.succeedsOn (k : String) : Move ι ε α → Bool
  | work c (.ok _) => key c = k
  | _ => false

/-- A result that a request may be given: a value that the work on its key gave, or an error of a
run that it started or joined. -/
def Answers (c : ι) : Except ε α → Prop
  | .ok v => ∃ l, key l = key c ∧ .work l (.ok v) ∈ ms
  | .error e => ∃ l, .work l (.error e) ∈ ms ∧ (l = c ∨ .join c l ∈ ms)

def Phase.Backed (c : ι) : Phase ι ε α → Prop
  | storing v => .work c (.ok v) ∈ ms
  | landing (.ok v) => Answers key ms c (.ok v)
  | landing (.error e) => .work c (.error e) ∈ ms
  | waiting l => key l = key c ∧ .join c l ∈ ms
  | returned r => Answers key ms c r
  | start | missed | leading | working => True

end Trace

section Invariant
variable {key : ι → String} {keys : Finset String} {ms : List (Move ι ε α)} {m : Move ι ε α}
  {s : State ι ε α} {c : ι}

theorem Answers.mono {ms' : List (Move ι ε α)} (hsub : ms ⊆ ms') {r : Except ε α}
    (h : Answers key ms c r) : Answers key ms' c r := by
  cases r with
  | ok v =>
    obtain ⟨l, hl, hv⟩ := h
    exact ⟨l, hl, hsub hv⟩
  | error e =>
    obtain ⟨l, he, hl⟩ := h
    exact ⟨l, hsub he, hl.imp_right fun hj => hsub hj⟩

theorem Phase.Backed.mono {ms' : List (Move ι ε α)} (hsub : ms ⊆ ms') {p : Phase ι ε α}
    (h : p.Backed key ms c) : p.Backed key ms' c := by
  cases p with
  | storing v => exact hsub h
  | landing r =>
    cases r with
    | ok v => exact Answers.mono (r := .ok v) hsub h
    | error e => exact hsub h
  | waiting l => exact ⟨h.1, hsub h.2⟩
  | returned r => exact Answers.mono hsub h
  | start | missed | leading | working => trivial

/-- What holds between the steps. Only leaders of open flights are past their second miss, and a
value that was computed is in the cache, or about to be put there by the leader of its flight. -/
structure Inv (key : ι → String) (keys : Finset String) (ms : List (Move ι ε α))
    (s : State ι ε α) : Prop where
  flies : ∀ k l, s.flight k = some l → key l = k
  leads : ∀ c, (s.phase c).isAloft → s.flight (key c) = some c
  backed : ∀ c, (s.phase c).Backed key ms c
  unseen : ∀ c, s.phase c = .working → ∀ l v, .work l (.ok v) ∈ ms → key l ≠ key c
  fits : s.cache.FitsIn keys
  cached : ∀ k v, s.cache.entries.lookup k = some v → ∃ l, key l = k ∧ .work l (.ok v) ∈ ms
  kept : ∀ l v, .work l (.ok v) ∈ ms →
    s.cache.entries.lookup (key l) = some v ∨ s.phase l = .storing v
  once : ∀ k, ms.countP (Move.succeedsOn key k) ≤ 1

theorem Inv.initial {capacity : Nat} (hroom : keys.card ≤ capacity) :
    Inv key keys ([] : List (Move ι ε α)) (State.initial capacity) where
  flies := nofun
  leads := nofun
  backed _ := trivial
  unseen := nofun
  fits := ⟨List.nodup_nil, nofun, hroom⟩
  cached := nofun
  kept := nofun
  once _ := Nat.zero_le _

theorem Inv.eq_of_aloft (h : Inv key keys ms s) {d : ι} (hc : (s.phase c).isAloft)
    (hd : (s.phase d).isAloft) (hkey : key c = key d) : c = d := by
  have hflight := h.leads c hc
  rw [hkey, h.leads d hd] at hflight
  exact (Option.some.inj hflight).symm

theorem exists_of_succeedsOn {k : String} (h : m.succeedsOn key k) :
    ∃ l v, m = .work l (.ok v) ∧ key l = k := by
  cases m with
  | work l r =>
    cases r with
    | ok v => exact ⟨l, v, rfl, of_decide_eq_true h⟩
    | error e => cases h
  | look | takeOff | join | lookAgain | store | land => cases h

theorem succeedsOn_work (key : ι → String) (l : ι) (v : α) :
    (Move.work l (.ok v) : Move ι ε α).succeedsOn key (key l) = true := decide_eq_true rfl

theorem mem_of_quiet (hm : ∀ k, m.succeedsOn key k = false) {l : ι} {v : α}
    (h : .work l (.ok v) ∈ ms ++ [m]) : .work l (.ok v) ∈ ms := by
  rcases List.mem_append.mp h with h | h
  · exact h
  · have hquiet := hm (key l)
    rw [← List.mem_singleton.mp h, succeedsOn_work] at hquiet
    exact absurd hquiet Bool.noConfusion

theorem countP_of_quiet (hm : ∀ k, m.succeedsOn key k = false) (k : String) :
    (ms ++ [m]).countP (Move.succeedsOn key k) = ms.countP (Move.succeedsOn key k) := by
  rw [List.countP_append, List.countP_singleton, hm k]
  rfl

theorem Inv.value_unique (h : Inv key keys ms s) {l l' : ι} {v v' : α}
    (hl : .work l (.ok v) ∈ ms) (hl' : .work l' (.ok v') ∈ ms) (hkey : key l = key l') :
    v = v' := by
  have honce := h.once (key l)
  rw [List.countP_eq_length_filter] at honce
  have hmem := List.mem_filter.mpr ⟨hl, succeedsOn_work key l v⟩
  have hmem' := List.mem_filter.mpr ⟨hl', hkey ▸ succeedsOn_work key l' v'⟩
  obtain ⟨x, hx⟩ := List.length_eq_one_iff.mp (le_antisymm honce (List.length_pos_of_mem hmem))
  rw [hx, List.mem_singleton] at hmem hmem'
  exact Except.ok.inj (Move.work.inj (hmem.trans hmem'.symm)).2

theorem Inv.backed_concat (h : Inv key keys ms s) (m : Move ι ε α) (d : ι) :
    (s.phase d).Backed key (ms ++ [m]) d := (h.backed d).mono (List.subset_append_left ms [m])

theorem Inv.lookup_use (h : Inv key keys ms s) {k : String} (hk : k ∈ keys) {a : α}
    (ha : s.cache.entries.lookup k = some a) (l : String) :
    (s.cache.use k a).entries.lookup l = s.cache.entries.lookup l := by
  rw [h.fits.lookup_use hk]
  split_ifs with hl
  · rw [hl, ha]
  · rfl

theorem Inv.answers_of_landing (h : Inv key keys ms s) {r : Except ε α}
    (hc : s.phase c = .landing r) {d : ι} (hd : d = c ∨ s.phase d = .waiting c) :
    Answers key ms d r := by
  have hback := h.backed c
  rw [hc] at hback
  rcases hd with rfl | hd
  · cases r with
    | ok v => exact hback
    | error e => exact ⟨d, hback, .inl rfl⟩
  · have hwait := h.backed d
    rw [hd] at hwait
    cases r with
    | ok v =>
      obtain ⟨l, hl, hv⟩ := hback
      exact ⟨l, hl.trans hwait.1, hv⟩
    | error e => exact ⟨c, hback, .inr hwait.2⟩

theorem Inv.quiet (h : Inv key keys ms s) (hm : ∀ k, m.succeedsOn key k = false)
    {t : State ι ε α} (hflies : ∀ k l, t.flight k = some l → key l = k)
    (hleads : ∀ d, (t.phase d).isAloft → t.flight (key d) = some d)
    (hbacked : ∀ d, (t.phase d).Backed key (ms ++ [m]) d)
    (hworking : ∀ d, t.phase d = .working → ∀ l v, .work l (.ok v) ∈ ms → key l ≠ key d)
    (hstoring : ∀ d v, s.phase d = .storing v → t.phase d = .storing v)
    (hfits : t.cache.FitsIn keys)
    (hlookup : ∀ k, t.cache.entries.lookup k = s.cache.entries.lookup k) :
    Inv key keys (ms ++ [m]) t where
  flies := hflies
  leads := hleads
  backed := hbacked
  unseen d hd l v hl := hworking d hd l v (mem_of_quiet hm hl)
  fits := hfits
  cached k v hv := by
    obtain ⟨l, hl, hmem⟩ := h.cached k v (hlookup k ▸ hv)
    exact ⟨l, hl, List.mem_append_left _ hmem⟩
  kept l v hl :=
    (h.kept l v (mem_of_quiet hm hl)).imp (fun hv => (hlookup _).trans hv) (hstoring l v)
  once k := (countP_of_quiet hm k).trans_le (h.once k)

theorem flight_takeOff (s : State ι ε α) (k l : String) (c : ι) :
    (s.takeOff k c).flight l = if l = k then some c else s.flight l := Function.update_apply ..

variable [DecidableEq ι]

theorem phase_advance (s : State ι ε α) (c d : ι) (p : Phase ι ε α) :
    (s.advance c p).phase d = if d = c then p else s.phase d := Function.update_apply ..

theorem flight_land (s : State ι ε α) (k l : String) (c : ι) (r : Except ε α) :
    (s.land k c r).flight l = if l = k then none else s.flight l := Function.update_apply ..

theorem forall_advance {P : ι → Phase ι ε α → Prop} (h : ∀ d, d ≠ c → P d (s.phase d))
    {p : Phase ι ε α} (hc : P c p) (d : ι) : P d ((s.advance c p).phase d) := by
  rw [phase_advance]
  split_ifs with hd
  · exact hd ▸ hc
  · exact h d hd

theorem Inv.advance (h : Inv key keys ms s) (hm : ∀ k, m.succeedsOn key k = false)
    {t : State ι ε α} (hphase : t.phase = s.phase)
    (hflies : ∀ k l, t.flight k = some l → key l = k)
    (hothers : ∀ d, d ≠ c → (s.phase d).isAloft → t.flight (key d) = some d)
    (hfits : t.cache.FitsIn keys)
    (hlookup : ∀ k, t.cache.entries.lookup k = s.cache.entries.lookup k) {p : Phase ι ε α}
    (hold : ∀ v, s.phase c ≠ .storing v) (haloft : p.isAloft → t.flight (key c) = some c)
    (hback : p.Backed key (ms ++ [m]) c)
    (hwork : p = .working → ∀ l v, .work l (.ok v) ∈ ms → key l ≠ key c) :
    Inv key keys (ms ++ [m]) (t.advance c p) := by
  refine h.quiet hm hflies ?_ ?_ ?_ ?_ hfits hlookup
  · exact forall_advance (P := fun d q => q.isAloft → t.flight (key d) = some d)
      (hphase ▸ hothers) haloft
  · exact forall_advance (P := fun d q => q.Backed key (ms ++ [m]) d)
      (fun d _ => hphase ▸ h.backed_concat m d) hback
  · exact forall_advance
      (P := fun d q => q = .working → ∀ l v, .work l (.ok v) ∈ ms → key l ≠ key d)
      (fun d _ => hphase ▸ h.unseen d) hwork
  · intro d v hd
    have hne : d ≠ c := fun heq => hold v (heq ▸ hd)
    rw [phase_advance, if_neg hne, hphase, hd]

theorem Inv.takeOff (h : Inv key keys ms s) (hc : s.phase c = .missed)
    (hfree : s.flight (key c) = none) :
    Inv key keys (ms ++ [.takeOff c]) ((s.takeOff (key c) c).advance c .leading) := by
  refine h.advance (t := s.takeOff (key c) c) (fun _ => rfl) rfl ?_ ?_ h.fits (fun _ => rfl) ?_ ?_
    trivial nofun
  · intro k l hl
    rw [flight_takeOff] at hl
    split_ifs at hl with hk
    · rw [← Option.some.inj hl, hk]
    · exact h.flies k l hl
  · -- a leader of another flight has another key, for the flight of this one was not open
    intro d _ haloft
    have hkey : key d ≠ key c := fun heq => by
      have hopen := h.leads d haloft
      rw [heq, hfree] at hopen
      cases hopen
    rw [flight_takeOff, if_neg hkey, h.leads d haloft]
  · exact fun v hv => nomatch hc.symm.trans hv
  · exact fun _ => (flight_takeOff ..).trans (if_pos rfl)

theorem Inv.succeed (h : Inv key keys ms s) (hc : s.phase c = .working) (a : α) :
    Inv key keys (ms ++ [.work c (.ok a)]) (s.advance c (.storing a)) where
  flies := h.flies
  leads := forall_advance (P := fun d q => q.isAloft → s.flight (key d) = some d)
    (fun d _ => h.leads d) fun _ => h.leads c (hc ▸ rfl)
  backed := forall_advance (P := fun d q => q.Backed key (ms ++ [.work c (.ok a)]) d)
    (fun d _ => h.backed_concat _ d) (List.mem_append_right _ List.mem_cons_self)
  unseen := by
    refine forall_advance (p := .storing a) (P := fun d q => q = .working →
      ∀ l v, .work l (.ok v) ∈ ms ++ [.work c (.ok a)] → key l ≠ key d) ?_ nofun
    intro d hd hwork l v hl
    rcases List.mem_append.mp hl with hl | hl
    · exact h.unseen d hwork l v hl
    · obtain ⟨rfl, -⟩ := Move.work.inj (List.mem_singleton.mp hl)
      exact fun hkey => hd (h.eq_of_aloft (hc ▸ rfl) (hwork ▸ rfl) hkey).symm
  fits := h.fits
  cached k v hv := by
    obtain ⟨l, hl, hmem⟩ := h.cached k v hv
    exact ⟨l, hl, List.mem_append_left _ hmem⟩
  kept l v hl := by
    rcases List.mem_append.mp hl with hl | hl
    · refine (h.kept l v hl).imp_right fun hp => ?_
      have hne : l ≠ c := fun heq => by
        rw [heq, hc] at hp
        cases hp
      rw [phase_advance, if_neg hne, hp]
    · obtain ⟨rfl, hv⟩ := Move.work.inj (List.mem_singleton.mp hl)
      rw [phase_advance, if_pos rfl, Except.ok.inj hv]
      exact .inr rfl
  once k := by
    rw [List.countP_append, List.countP_singleton]
    by_cases hk : key c = k
    · -- the second miss came while the flight was open, so there was no success on the key
      have hzero : ms.countP (Move.succeedsOn key k) = 0 := by
        rw [List.countP_eq_zero]
        intro m hm hsucc
        obtain ⟨l, v, rfl, hl⟩ := exists_of_succeedsOn hsucc
        exact h.unseen c hc l v hm (hl.trans hk.symm)
      rw [hzero]
      split_ifs <;> decide
    · have hother : (Move.work c (.ok a) : Move ι ε α).succeedsOn key k = false :=
        decide_eq_false hk
      rw [hother]
      exact h.once k

theorem Inv.store (h : Inv key keys ms s) {a : α} (hc : s.phase c = .storing a)
    (hkey : key c ∈ keys) :
    Inv key keys (ms ++ [.store c]) ((s.use (key c) a).advance c (.landing (.ok a))) := by
  have hmem : .work c (.ok a) ∈ ms := by
    have hback := h.backed c
    rwa [hc] at hback
  have hquiet : ∀ k, (Move.store c : Move ι ε α).succeedsOn key k = false := fun _ => rfl
  have hlookup := h.fits.lookup_use hkey a
  constructor
  case flies => exact h.flies
  case leads =>
    exact forall_advance (P := fun d q => q.isAloft → s.flight (key d) = some d)
      (fun d _ => h.leads d) fun _ => h.leads c (hc ▸ rfl)
  case backed =>
    exact forall_advance (p := .landing (.ok a)) (P := fun d q => q.Backed key (ms ++ [.store c]) d)
      (fun d _ => h.backed_concat _ d) ⟨c, rfl, List.mem_append_left _ hmem⟩
  case unseen =>
    intro d hd l v hl
    exact forall_advance (p := .landing (.ok a))
      (P := fun d q => q = .working → ∀ l v, .work l (.ok v) ∈ ms → key l ≠ key d)
      (fun d _ => h.unseen d) nofun d hd l v (mem_of_quiet hquiet hl)
  case fits => exact h.fits.use hkey a
  case cached =>
    intro k v hv
    rw [State.advance, State.use, hlookup] at hv
    split_ifs at hv with hk
    · exact ⟨c, hk.symm, List.mem_append_left _ (Option.some.inj hv ▸ hmem)⟩
    · obtain ⟨l, hl, hl'⟩ := h.cached k v hv
      exact ⟨l, hl, List.mem_append_left _ hl'⟩
  case kept =>
    intro l v hl
    replace hl := mem_of_quiet hquiet hl
    rw [State.advance, State.use, hlookup]
    by_cases hk : key l = key c
    · rw [if_pos hk, h.value_unique hl hmem hk]
      exact .inl rfl
    · rw [if_neg hk]
      refine (h.kept l v hl).imp_right fun hp => ?_
      have hne : l ≠ c := fun heq => hk (congrArg key heq)
      exact (Function.update_of_ne hne ..).trans hp
  case once => exact fun k => (countP_of_quiet hquiet k).trans_le (h.once k)

theorem awaits_iff {p : Phase ι ε α} : p.awaits c ↔ p = .waiting c := by
  cases p with
  | waiting l => exact decide_eq_true_iff.trans (by rw [Phase.waiting.injEq])
  | start | missed | leading | working | storing _ | landing _ | returned _ =>
    exact iff_of_false Bool.false_ne_true nofun

theorem phase_land (s : State ι ε α) (k : String) (c d : ι) (r : Except ε α) :
    (s.land k c r).phase d = .returned r ∧ (d = c ∨ s.phase d = .waiting c) ∨
      (s.land k c r).phase d = s.phase d ∧ d ≠ c := by
  have hiff : (decide (d = c) || (s.phase d).awaits c) ↔ d = c ∨ s.phase d = .waiting c := by
    rw [Bool.or_eq_true, decide_eq_true_iff, awaits_iff]
  by_cases h : d = c ∨ s.phase d = .waiting c
  · exact .inl ⟨if_pos (hiff.mpr h), h⟩
  · exact .inr ⟨if_neg (h ∘ hiff.mp), fun hd => h (.inl hd)⟩

theorem Inv.land (h : Inv key keys ms s) {r : Except ε α} (hc : s.phase c = .landing r) :
    Inv key keys (ms ++ [.land c]) (s.land (key c) c r) := by
  refine h.quiet (fun _ => rfl) ?_ ?_ ?_ ?_ ?_ h.fits fun _ => rfl
  · intro k l hl
    rw [flight_land] at hl
    split_ifs at hl
    exact h.flies k l hl
  · intro d haloft
    rcases phase_land s (key c) c d r with ⟨hp, -⟩ | ⟨hp, hne⟩
    · rw [hp] at haloft
      cases haloft
    · -- whoever still leads a flight leads another one
      rw [hp] at haloft
      have hkey : key d ≠ key c := fun heq => hne (h.eq_of_aloft haloft (hc ▸ rfl) heq)
      rw [flight_land, if_neg hkey, h.leads d haloft]
  · intro d
    rcases phase_land s (key c) c d r with ⟨hp, hd⟩ | ⟨hp, -⟩
    · rw [hp]
      exact (h.answers_of_landing hc hd).mono (List.subset_append_left ms _)
    · exact hp ▸ h.backed_concat _ d
  · intro d hd
    rcases phase_land s (key c) c d r with ⟨hp, -⟩ | ⟨hp, -⟩
    · cases hp.symm.trans hd
    · exact h.unseen d (hp.symm.trans hd)
  · intro d v hd
    rcases phase_land s (key c) c d r with ⟨-, rfl | hw⟩ | ⟨hp, -⟩
    · cases hc.symm.trans hd
    · cases hw.symm.trans hd
    · exact hp.trans hd

theorem Inv.step (h : Inv key keys ms s) {t : State ι ε α} (hkey : key m.request ∈ keys)
    (hstep : Step key s m t) : Inv key keys (ms ++ [m]) t := by
  have hleads : ∀ d, d ≠ m.request → (s.phase d).isAloft → s.flight (key d) = some d :=
    fun d _ => h.leads d
  cases hstep with
  | @hit c a hc ha =>
    obtain ⟨l, hl, hv⟩ := h.cached _ a ha
    exact h.advance (t := s.use (key c) a) (fun _ => rfl) rfl h.flies hleads (h.fits.use hkey a)
      (h.lookup_use hkey ha) (fun v hv => nomatch hc.symm.trans hv) nofun
      ⟨l, hl, List.mem_append_left _ hv⟩ nofun
  | miss hc _ =>
    exact h.advance (fun _ => rfl) rfl h.flies hleads h.fits (fun _ => rfl)
      (fun v hv => nomatch hc.symm.trans hv) nofun trivial nofun
  | takeOff hc hfree => exact h.takeOff hc hfree
  | join hc hl =>
    exact h.advance (fun _ => rfl) rfl h.flies hleads h.fits (fun _ => rfl)
      (fun v hv => nomatch hc.symm.trans hv) nofun
      ⟨h.flies _ _ hl, List.mem_append_right _ List.mem_cons_self⟩ nofun
  | @hitAgain c a hc ha =>
    obtain ⟨l, hl, hv⟩ := h.cached _ a ha
    exact h.advance (t := s.use (key c) a) (fun _ => rfl) rfl h.flies hleads (h.fits.use hkey a)
      (h.lookup_use hkey ha) (fun v hv => nomatch hc.symm.trans hv) (fun _ => h.leads c (hc ▸ rfl))
      ⟨l, hl, List.mem_append_left _ hv⟩ nofun
  | @missAgain c hc hnone =>
    refine h.advance (fun _ => rfl) rfl h.flies hleads h.fits (fun _ => rfl)
      (fun v hv => nomatch hc.symm.trans hv) (fun _ => h.leads c (hc ▸ rfl)) trivial ?_
    -- a success would be in the cache, or its leader would be in this very flight
    intro _ l v hl (heq : key l = key c)
    rcases h.kept l v hl with hv | hp
    · rw [heq, hnone] at hv
      cases hv
    · obtain rfl := h.eq_of_aloft (hp ▸ rfl) (hc ▸ rfl) heq
      cases hc.symm.trans hp
  | succeed hc => exact h.succeed hc _
  | @fail c e hc =>
    exact h.advance (fun _ => rfl) rfl h.flies hleads h.fits (fun _ => rfl)
      (fun v hv => nomatch hc.symm.trans hv) (fun _ => h.leads c (hc ▸ rfl))
      (List.mem_append_right _ List.mem_cons_self) nofun
  | store hc => exact h.store hc hkey
  | land hc => exact h.land hc

theorem Steps.inv {capacity : Nat} (hroom : keys.card ≤ capacity)
    (h : Steps key (State.initial capacity) ms s) (hkeys : ∀ m ∈ ms, key m.request ∈ keys) :
    Inv key keys ms s := by
  induction h with
  | none => exact Inv.initial hroom
  | snoc _ hstep ih =>
    have hinv := ih fun m hm => hkeys m (List.mem_append_left _ hm)
    exact hinv.step (hkeys _ (List.mem_append_right _ List.mem_cons_self)) hstep

theorem exists_steps_fetch (hc : s.phase c = .start) (hfree : s.flight (key c) = none)
    (r : Except ε α) :
    ∃ ms t, Steps key s ms t ∧ (∀ m ∈ ms, m.request = c) ∧
      t.cache = (s.cache.fetch (key c) fun _ => r).cache ∧
      t.phase c = .returned (s.cache.fetch (key c) fun _ => r).result := by
  have hself : ∀ (t : State ι ε α) p, (t.advance c p).phase c = p := fun t p => by
    rw [phase_advance, if_pos rfl]
  cases ha : s.cache.entries.lookup (key c) with
  | some a =>
    refine ⟨_, _, .snoc .none (.hit hc ha), by simp [Move.request], ?_, ?_⟩
    · simp [UnitCache.fetch, ha, State.advance, State.use]
    · rw [hself]
      simp [UnitCache.fetch, ha]
  | none =>
    have hmiss : Steps key s _ _ := .snoc (.snoc (.snoc .none (.miss hc ha))
      (.takeOff (hself _ _) hfree)) (.missAgain (hself _ _) ha)
    cases r with
    | ok a =>
      refine ⟨_, _, .snoc (.snoc (.snoc hmiss (.succeed (a := a) (hself _ _))) (.store (hself _ _)))
        (.land (hself _ _)), by simp [Move.request], ?_, ?_⟩
      · simp [UnitCache.fetch, ha, State.advance, State.use, State.land, State.takeOff]
      · simp [UnitCache.fetch, ha, State.land]
    | error e =>
      refine ⟨_, _, .snoc (.snoc hmiss (.fail (e := e) (hself _ _))) (.land (hself _ _)),
        by simp [Move.request], ?_, ?_⟩
      · simp [UnitCache.fetch, ha, State.advance, State.land, State.takeOff]
      · simp [UnitCache.fetch, ha, State.land]

/-- Requests in any number, their steps in any order, and room for all keys in use: the work on a
key succeeds at most once, every value that is returned for it is the value of that success, and an
error comes from a run of the work that the request started or joined. -/
theorem work_succeeds_once {capacity : Nat} (h : Steps key (State.initial capacity) ms s)
    (hroom : (ms.map fun m => key m.request).toFinset.card ≤ capacity) :
    (∀ k, ms.countP (Move.succeedsOn key k) ≤ 1) ∧
      (∀ c v, s.phase c = .returned (.ok v) → ∃ l, key l = key c ∧ .work l (.ok v) ∈ ms) ∧
      ∀ c e, s.phase c = .returned (.error e) →
        ∃ l, .work l (.error e) ∈ ms ∧ (l = c ∨ .join c l ∈ ms) := by
  have hinv := h.inv hroom fun m hm => List.mem_toFinset.mpr (List.mem_map_of_mem hm)
  refine ⟨hinv.once, fun c v hc => ?_, fun c e hc => ?_⟩
  · have hback := hinv.backed c
    rwa [hc] at hback
  · have hback := hinv.backed c
    rwa [hc] at hback

end Invariant

/-- Request 1 misses, and goes on only when request 0 has opened a flight, stored the value and
closed the flight. -/
def overtaken : List (Move Nat String Nat) :=
  [.look 1, .look 0, .takeOff 0, .lookAgain 0, .work 0 (.ok 42), .store 0, .land 0, .takeOff 1,
    .lookAgain 1, .land 1]

theorem exists_steps_overtaken : ∃ s : State Nat String Nat,
    Steps (fun _ => "k") (State.initial 1) overtaken s ∧ s.phase 1 = .returned (.ok 42) := by
  have hstart :
      Steps (fun _ => "k") (State.initial 1) [] (State.initial 1 : State Nat String Nat) :=
    .none
  have hstored := hstart.snoc (.miss (c := 1) rfl rfl) |>.snoc (.miss (c := 0) rfl rfl)
    |>.snoc (.takeOff (c := 0) rfl rfl) |>.snoc (.missAgain (c := 0) rfl rfl)
    |>.snoc (.succeed (c := 0) (a := 42) rfl) |>.snoc (.store (c := 0) rfl)
    |>.snoc (.land (c := 0) rfl)
  exact ⟨_, hstored.snoc (.takeOff (c := 1) rfl rfl) |>.snoc (.hitAgain (c := 1) rfl rfl)
    |>.snoc (.land (c := 1) rfl), rfl⟩

theorem work_succeeds_once_overtaken :
    ∃ s : State Nat String Nat, Steps (fun _ => "k") (State.initial 1) overtaken s ∧
      (overtaken.map fun _ => "k").toFinset.card ≤ 1 ∧
      (∀ k, overtaken.countP (Move.succeedsOn (fun _ => "k") k) ≤ 1) ∧
      s.phase 1 = .returned (.ok 42) ∧ ∃ l, .work l (.ok 42) ∈ overtaken := by
  obtain ⟨s, hs, hone⟩ := exists_steps_overtaken
  have hroom : (overtaken.map fun _ => "k").toFinset.card ≤ 1 := by decide
  obtain ⟨honce, hok, -⟩ := work_succeeds_once hs hroom
  obtain ⟨l, -, hl⟩ := hok 1 42 hone
  exact ⟨s, hs, hroom, honce, hone, l, hl⟩

end TemplateCensus.Flights
