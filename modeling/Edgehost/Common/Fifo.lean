import Mathlib.Data.List.Basic
import Mathlib.Data.List.Forall2
import Mathlib.Data.List.Infix
import Mathlib.Data.List.TakeDrop

/-!
# Bounded queues that drop the oldest message

A queue is closed (`none`) or open with its messages, oldest first. A put into a full queue drops the
oldest message. `FifoEvent` is what happens to one queue at one moment, and `FifoRun` says that a log
of such events is one of a queue with capacity `cap`.

`fifoStamps` runs the same queue with moments in place of messages, so that `fifoSource` names the
moment at which a message that was taken had been put.

* `FifoRun.history`: messages are taken in the order in which they were put, each at most once and
  none from before the queue was opened; a message that is gone without having been taken was cleared,
  or at least `cap` messages were put after it.
-/

variable {α : Type*}

/-- What happens to a queue. -/
inductive FifoEvent (α : Type*)
  | opened
  | closed
  | put (a : α)
  | took (a : α)
  /-- A take that found nothing. -/
  | missed
  | other
  deriving DecidableEq

/-- A put is counted, whatever it puts. -/
def FifoEvent.isPut : FifoEvent α → Bool
  | .put _ => true
  | _ => false

/-- The message that was taken. -/
def FifoEvent.taken : FifoEvent α → Option α
  | .took a => some a
  | _ => none

/-- Put a message; a full queue loses its oldest one. -/
def fifoPut (cap : ℕ) (q : List α) (a : α) : List α := (if q.length ≥ cap then q.tail else q) ++ [a]

/-- One event of a queue. -/
inductive FifoStep (cap : ℕ) : Option (List α) → FifoEvent α → Option (List α) → Prop
  | opened : FifoStep cap none .opened (some [])
  | closed (q : Option (List α)) : FifoStep cap q .closed none
  | put (q : List α) (a : α) : FifoStep cap (some q) (.put a) (some (fifoPut cap q a))
  | took (a : α) (q : List α) : FifoStep cap (some (a :: q)) (.took a) (some q)
  | missed {q : Option (List α)} (h : q.getD [] = []) : FifoStep cap q .missed q
  | other (q : Option (List α)) : FifoStep cap q .other q

/-- The log of a queue that was closed at the start, and what the queue holds after it. -/
inductive FifoRun (cap : ℕ) : List (FifoEvent α) → Option (List α) → Prop
  | start : FifoRun cap [] none
  | snoc {log : List (FifoEvent α)} {e : FifoEvent α} {q q' : Option (List α)} :
      FifoRun cap log q → FifoStep cap q e q' → FifoRun cap (log ++ [e]) q'

/-- One event, for a queue that holds moments; `t` is now. -/
def stampStep (cap : ℕ) (q : List ℕ) (e : FifoEvent α) (t : ℕ) : List ℕ :=
  match e with
  | .opened => []
  | .closed => []
  | .put _ => fifoPut cap q t
  | .took _ => q.tail
  | .missed => q
  | .other => q

/-- The moments at which the messages still in the queue were put. -/
def fifoStamps (cap : ℕ) (log : List (FifoEvent α)) : List ℕ :=
  log.zipIdx.foldl (fun q e => stampStep cap q e.1 e.2) []

/-- The moment at which the message taken at `u` was put. -/
def fifoSource (cap : ℕ) (log : List (FifoEvent α)) (u : ℕ) : ℕ :=
  (fifoStamps cap (log.take u)).headD 0

/-- The number of messages put after moment `t`. -/
def putsAfter (log : List (FifoEvent α)) (t : ℕ) : ℕ := (log.drop (t + 1)).countP FifoEvent.isPut

/-- A message that was put at `t` has left the queue: it was taken, it was cleared, or it was dropped
for at least `cap` later ones. -/
def FifoGone (cap : ℕ) (log : List (FifoEvent α)) (t : ℕ) : Prop :=
  (∃ u b, log[u]? = some (.took b) ∧ fifoSource cap log u = t) ∨
    (∃ w, t < w ∧ log[w]? = some .closed) ∨ cap ≤ putsAfter log t

/-- What a queue may do with its messages over a whole log. -/
structure FifoHistory (cap : ℕ) (log : List (FifoEvent α)) : Prop where
  /-- A message that is taken was put before. -/
  matched : ∀ u a, log[u]? = some (.took a) →
    fifoSource cap log u < u ∧ log[fifoSource cap log u]? = some (.put a)
  /-- Messages are taken in the order of their puts, each at most once. -/
  ordered : ∀ u v a b, log[u]? = some (.took a) → log[v]? = some (.took b) → u < v →
    fifoSource cap log u < fifoSource cap log v
  /-- A message that is taken was put after the queue was last opened. -/
  current : ∀ u a, log[u]? = some (.took a) → ∀ w < u,
    log[w]? = some .opened ∨ log[w]? = some .closed → w < fifoSource cap log u
  /-- At every later moment, a message that was put is still there or has left in one of these ways. -/
  accounted : ∀ t a, log[t]? = some (.put a) → ∀ n, t < n → n ≤ log.length →
    t ∈ fifoStamps cap (log.take n) ∨ FifoGone cap (log.take n) t

/-! ## Runs and their prefixes -/

theorem FifoRun.take {cap : ℕ} {log : List (FifoEvent α)} {q : Option (List α)}
    (h : FifoRun cap log q) (n : ℕ) : ∃ q, FifoRun cap (log.take n) q := by
  induction h with
  | start => exact ⟨none, by simpa using .start⟩
  | @snoc log e q q' hrun hstep ih =>
    rcases Nat.lt_or_ge log.length n with hn | hn
    · rw [List.take_of_length_le (by simp; omega)]
      exact ⟨q', hrun.snoc hstep⟩
    · rw [List.take_append_of_le_length hn]
      exact ih

/-- The event at a moment is a step from the queue of the log before it. -/
theorem FifoRun.step_at {cap : ℕ} {log : List (FifoEvent α)} {q : Option (List α)}
    (h : FifoRun cap log q) {u : ℕ} {e : FifoEvent α} (hu : log[u]? = some e) :
    ∃ q q', FifoRun cap (log.take u) q ∧ FifoStep cap q e q' := by
  have hlt : u < log.length := (List.getElem?_eq_some_iff.mp hu).1
  obtain ⟨q', hrun⟩ := h.take (u + 1)
  rw [List.take_add_one, hu, Option.toList_some] at hrun
  generalize hlog : log.take u ++ [e] = l at hrun
  cases hrun with
  | start => simp at hlog
  | snoc hrun hstep =>
    obtain ⟨hpre, he⟩ := List.append_inj' hlog rfl
    obtain rfl := List.singleton_inj.mp he
    rw [← hpre] at hrun
    exact ⟨_, _, hrun, hstep⟩

theorem fifoStamps_snoc (cap : ℕ) (log : List (FifoEvent α)) (e : FifoEvent α) :
    fifoStamps cap (log ++ [e]) = stampStep cap (fifoStamps cap log) e log.length := by
  simp [fifoStamps, List.zipIdx_append, List.foldl_append]

theorem fifoSource_take {cap : ℕ} (log : List (FifoEvent α)) {u n : ℕ} (h : u ≤ n) :
    fifoSource cap (log.take n) u = fifoSource cap log u := by
  rw [fifoSource, fifoSource, List.take_take, Nat.min_eq_left h]

theorem fifoSource_snoc {cap : ℕ} {log : List (FifoEvent α)} {u : ℕ} (h : u ≤ log.length)
    (e : FifoEvent α) : fifoSource cap (log ++ [e]) u = fifoSource cap log u := by
  rw [fifoSource, fifoSource, List.take_append_of_le_length h]

theorem lt_length_of_mem_fifoStamps {cap : ℕ} {log : List (FifoEvent α)} :
    ∀ t ∈ fifoStamps cap log, t < log.length := by
  induction log using List.reverseRecOn with
  | nil => exact fun t ht => absurd ht List.not_mem_nil
  | append_singleton log e ih =>
    rw [fifoStamps_snoc, List.length_append, List.length_singleton]
    have hold : ∀ t ∈ fifoStamps cap log, t < log.length + 1 := fun t ht => Nat.lt_succ_of_lt (ih t ht)
    cases e with
    | opened => exact fun t ht => absurd ht List.not_mem_nil
    | closed => exact fun t ht => absurd ht List.not_mem_nil
    | put a =>
      intro t ht
      rcases List.mem_append.mp ht with ht | ht
      · split at ht
        · exact hold t (List.mem_of_mem_tail ht)
        · exact hold t ht
      · rw [List.mem_singleton.mp ht]
        exact Nat.lt_succ_self _
    | took a => exact fun t ht => hold t (List.mem_of_mem_tail ht)
    | missed => exact hold
    | other => exact hold

theorem fifoSource_lt {cap : ℕ} {log : List (FifoEvent α)} {u : ℕ} (hu : u < log.length) :
    fifoSource cap log u < log.length := by
  rcases hs : fifoStamps cap (log.take u) with _ | ⟨t, ts⟩
  · rw [fifoSource, hs]
    exact Nat.zero_lt_of_lt hu
  · have ht := lt_length_of_mem_fifoStamps t (hs ▸ List.mem_cons_self : t ∈ fifoStamps cap (log.take u))
    rw [fifoSource, hs]
    exact ht.trans_le (List.length_take_le' u log)

theorem putsAfter_snoc {log : List (FifoEvent α)} {t : ℕ} (ht : t < log.length) (e : FifoEvent α) :
    putsAfter (log ++ [e]) t = putsAfter log t + if e.isPut then 1 else 0 := by
  rw [putsAfter, List.drop_append_of_le_length ht, List.countP_append, List.countP_singleton]
  rfl

theorem getElem?_snoc {log : List α} {i : ℕ} {x e : α} :
    (log ++ [e])[i]? = some x ↔ log[i]? = some x ∨ i = log.length ∧ e = x := by
  rcases Nat.lt_trichotomy i log.length with hi | rfl | hi
  · rw [List.getElem?_append_left hi]
    exact ⟨.inl, fun h => h.resolve_right fun h => by omega⟩
  · simp
  · rw [List.getElem?_eq_none (by simp; omega), List.getElem?_eq_none (by omega)]
    constructor
    · intro h
      cases h
    · rintro (h | ⟨h, -⟩)
      · cases h
      · omega

theorem FifoGone.snoc {cap : ℕ} {log : List (FifoEvent α)} {t : ℕ} (ht : t < log.length)
    (h : FifoGone cap log t) (e : FifoEvent α) : FifoGone cap (log ++ [e]) t := by
  rcases h with ⟨u, b, hu, hsrc⟩ | ⟨w, hw, hclosed⟩ | hdropped
  · have hlt : u < log.length := (List.getElem?_eq_some_iff.mp hu).1
    refine .inl ⟨u, b, getElem?_snoc.mpr (.inl hu), ?_⟩
    rw [fifoSource_snoc (Nat.le_of_lt hlt), hsrc]
  · exact .inr (.inl ⟨w, hw, getElem?_snoc.mpr (.inl hclosed)⟩)
  · refine .inr (.inr (hdropped.trans ?_))
    rw [putsAfter_snoc ht]
    exact Nat.le_add_right _ _

/-! ## The invariant -/

/-- What the moments in the queue say about the log. -/
structure StampInv (cap : ℕ) (log : List (FifoEvent α)) (q : Option (List α)) : Prop where
  held : List.Forall₂ (fun t a => log[t]? = some (.put a)) (fifoStamps cap log) (q.getD [])
  sorted : (fifoStamps cap log).Pairwise (· < ·)
  current : ∀ t ∈ fifoStamps cap log, ∀ w, log[w]? = some .opened ∨ log[w]? = some .closed → w < t
  untaken : ∀ t ∈ fifoStamps cap log, ∀ u a, log[u]? = some (.took a) → fifoSource cap log u < t
  later : ∀ t r, t :: r <:+ fifoStamps cap log → r.length ≤ putsAfter log t
  accounted : ∀ t a, log[t]? = some (.put a) → t ∈ fifoStamps cap log ∨ FifoGone cap log t

namespace StampInv

variable {cap : ℕ} {log : List (FifoEvent α)} {q : Option (List α)}

/-- The parts of the invariant that hold of every queue of moments that are already there. -/
private theorem keep (h : StampInv cap log q) {e : FifoEvent α} {r : List ℕ} {q' : Option (List α)}
    (hstamps : fifoStamps cap (log ++ [e]) = r) (hr : r <:+ fifoStamps cap log)
    (hheld : List.Forall₂ (fun t a => log[t]? = some (.put a)) r (q'.getD []))
    (hopen : e = .opened ∨ e = .closed → r = [])
    (htook : ∀ a, e = .took a → ∀ t ∈ r, fifoSource cap (log ++ [e]) log.length < t)
    (hput : ∀ a, e ≠ .put a)
    (hgone : ∀ t ∈ fifoStamps cap log, t ∈ r ∨ FifoGone cap (log ++ [e]) t) :
    StampInv cap (log ++ [e]) q' where
  held := by
    rw [hstamps]
    exact hheld.imp fun t a ht => getElem?_snoc.mpr (.inl ht)
  sorted := by
    rw [hstamps]
    exact h.sorted.sublist hr.sublist
  current := by
    rw [hstamps]
    intro t ht w hw
    rw [getElem?_snoc, getElem?_snoc] at hw
    obtain (hw | ⟨-, rfl⟩) | (hw | ⟨-, rfl⟩) := hw
    · exact h.current t (hr.mem ht) w (.inl hw)
    · rw [hopen (.inl rfl)] at ht
      cases ht
    · exact h.current t (hr.mem ht) w (.inr hw)
    · rw [hopen (.inr rfl)] at ht
      cases ht
  untaken := by
    rw [hstamps]
    intro t ht u a hu
    obtain hu | ⟨rfl, rfl⟩ := getElem?_snoc.mp hu
    · have hlt : u < log.length := (List.getElem?_eq_some_iff.mp hu).1
      rw [fifoSource_snoc (Nat.le_of_lt hlt)]
      exact h.untaken t (hr.mem ht) u a hu
    · exact htook a rfl t ht
  later := by
    rw [hstamps]
    intro t r' hr'
    have ht := lt_length_of_mem_fifoStamps t ((hr'.trans hr).mem List.mem_cons_self)
    rw [putsAfter_snoc ht]
    exact (h.later t r' (hr'.trans hr)).trans (Nat.le_add_right _ _)
  accounted := by
    rw [hstamps]
    intro t a ht
    obtain ht | ⟨-, rfl⟩ := getElem?_snoc.mp ht
    · have hlt : t < log.length := (List.getElem?_eq_some_iff.mp ht).1
      rcases h.accounted t a ht with hmem | hg
      · exact hgone t hmem
      · exact .inr (hg.snoc hlt e)
    · exact absurd rfl (hput a)

theorem start : StampInv cap ([] : List (FifoEvent α)) none where
  held := .nil
  sorted := .nil
  current t ht := absurd ht List.not_mem_nil
  untaken t ht := absurd ht List.not_mem_nil
  later t r h := absurd (List.eq_nil_of_suffix_nil h) (List.cons_ne_nil t r)
  accounted t a h := absurd h (by simp)

/-- What a put leaves of a queue. -/
private def kept (cap : ℕ) (q : List α) : List α := if q.length ≥ cap then q.tail else q

private theorem kept_suffix (cap : ℕ) (q : List α) : kept cap q <:+ q := by
  unfold kept
  split
  · exact List.tail_suffix q
  · exact List.suffix_refl q

/-- A put drops the first moment of a full queue, after which as many others were put as the queue
holds. -/
private theorem mem_kept (h : StampInv cap log q) (a : α) {t : ℕ} (ht : t ∈ fifoStamps cap log) :
    t ∈ kept cap (fifoStamps cap log) ∨ cap ≤ putsAfter (log ++ [.put a]) t := by
  unfold kept
  split
  · rename_i hfull
    rcases hs : fifoStamps cap log with _ | ⟨u, us⟩
    · rw [hs] at ht
      cases ht
    · rw [hs] at ht
      rcases List.mem_cons.mp ht with rfl | ht
      · have hlater := h.later t us (hs ▸ List.suffix_refl _)
        have hlt := lt_length_of_mem_fifoStamps t (hs ▸ List.mem_cons_self : t ∈ fifoStamps cap log)
        have hcount := putsAfter_snoc hlt (.put a)
        rw [hs, List.length_cons] at hfull
        simp only [FifoEvent.isPut, if_true] at hcount
        exact .inr (by omega)
      · exact .inl ht
  · exact .inl ht

/-- A put: the new moment is the last one, and the first one leaves a full queue. -/
private theorem put (h : StampInv cap log (some q₀)) (a : α) :
    StampInv cap (log ++ [.put a]) (some (fifoPut cap q₀ a)) := by
  have hstamps : fifoStamps cap (log ++ [.put a])
      = kept cap (fifoStamps cap log) ++ [log.length] := fifoStamps_snoc cap log (.put a)
  have hsuffix := kept_suffix cap (fifoStamps cap log)
  have hlen : (fifoStamps cap log).length = q₀.length := h.held.length_eq
  have hlast : (log ++ [FifoEvent.put a])[log.length]? = some (.put a) :=
    getElem?_snoc.mpr (.inr ⟨rfl, rfl⟩)
  constructor
  · have hkept : List.Forall₂ (fun t a => log[t]? = some (.put a)) (kept cap (fifoStamps cap log))
        (kept cap q₀) := by
      unfold kept
      rw [hlen]
      split
      · have := List.forall₂_drop 1 h.held
        rwa [List.drop_one, List.drop_one] at this
      · exact h.held
    rw [hstamps]
    refine List.rel_append (hkept.imp fun t b ht => getElem?_snoc.mpr (.inl ht)) (.cons hlast .nil)
  · rw [hstamps, List.pairwise_append]
    refine ⟨h.sorted.sublist hsuffix.sublist, List.pairwise_singleton _ _, fun t ht u hu => ?_⟩
    rw [List.mem_singleton.mp hu]
    exact lt_length_of_mem_fifoStamps t (hsuffix.mem ht)
  · rw [hstamps]
    intro t ht w hw
    have hw : log[w]? = some .opened ∨ log[w]? = some .closed := by
      rw [getElem?_snoc, getElem?_snoc] at hw
      simpa using hw
    rcases List.mem_append.mp ht with ht | ht
    · exact h.current t (hsuffix.mem ht) w hw
    · rw [List.mem_singleton.mp ht]
      rcases hw with hw | hw <;> exact (List.getElem?_eq_some_iff.mp hw).1
  · rw [hstamps]
    intro t ht u b hu
    have hu : log[u]? = some (.took b) := by simpa [getElem?_snoc] using hu
    have hlt : u < log.length := (List.getElem?_eq_some_iff.mp hu).1
    rw [fifoSource_snoc (Nat.le_of_lt hlt)]
    rcases List.mem_append.mp ht with ht | ht
    · exact h.untaken t (hsuffix.mem ht) u b hu
    · rw [List.mem_singleton.mp ht]
      exact fifoSource_lt hlt
  · rw [hstamps]
    intro t r hr
    -- A suffix of the new queue is one of the old queue with the new stamp behind it.
    obtain hnil | ⟨l, hl, hsuff⟩ := List.suffix_concat_iff.mp hr
    · cases hnil
    · rcases l with _ | ⟨t', r'⟩
      · obtain ⟨rfl, rfl⟩ := List.cons.inj hl
        exact Nat.zero_le _
      · obtain ⟨rfl, rfl⟩ := List.cons.inj hl
        have hlt := lt_length_of_mem_fifoStamps t ((hsuff.trans hsuffix).mem List.mem_cons_self)
        have hlater := h.later t r' (hsuff.trans hsuffix)
        have hlength : (r' ++ [log.length]).length = r'.length + 1 := List.length_append
        rw [putsAfter_snoc hlt]
        exact hlength.trans_le (Nat.add_le_add_right hlater 1)
  · rw [hstamps]
    intro t b ht
    obtain ht | ⟨rfl, -⟩ := getElem?_snoc.mp ht
    · have hlt : t < log.length := (List.getElem?_eq_some_iff.mp ht).1
      rcases h.accounted t b ht with hmem | hg
      · rcases h.mem_kept a hmem with hmem | hdropped
        · exact .inl (List.mem_append_left _ hmem)
        · exact .inr (.inr (.inr hdropped))
      · exact .inr (hg.snoc hlt _)
    · exact .inl (List.mem_append_right _ (List.mem_singleton_self _))

/-- Every event keeps the invariant. -/
theorem step (h : StampInv cap log q) {e : FifoEvent α} {q' : Option (List α)}
    (hstep : FifoStep cap q e q') : StampInv cap (log ++ [e]) q' := by
  have hsnoc := fifoStamps_snoc cap log e
  have hsource : fifoSource cap (log ++ [e]) log.length = (fifoStamps cap log).headD 0 := by
    rw [fifoSource, List.take_left]
  cases hstep with
  | opened =>
    refine h.keep hsnoc List.nil_suffix .nil (fun _ => rfl) (fun a ha => nomatch ha)
      (fun a ha => nomatch ha) fun t ht => ?_
    rw [List.forall₂_nil_right_iff.mp h.held] at ht
    cases ht
  | closed q =>
    refine h.keep hsnoc List.nil_suffix .nil (fun _ => rfl) (fun a ha => nomatch ha)
      (fun a ha => nomatch ha) fun t ht => ?_
    exact .inr (.inr (.inl ⟨log.length, lt_length_of_mem_fifoStamps t ht,
      getElem?_snoc.mpr (.inr ⟨rfl, rfl⟩)⟩))
  | put q a => exact h.put a
  | took a q =>
    obtain ⟨t, ts, ht, hts, hstamps⟩ := List.forall₂_cons_right_iff.mp h.held
    have hsuffix : ts <:+ fifoStamps cap log := hstamps ▸ List.suffix_cons t ts
    rw [hstamps] at hsnoc hsource
    refine h.keep hsnoc hsuffix hts (fun he => by rcases he with he | he <;> cases he)
      (fun b _ u hu => ?_) (fun b hb => nomatch hb) fun u hu => ?_
    · rw [hsource]
      exact List.rel_of_pairwise_cons (hstamps ▸ h.sorted) hu
    · rw [hstamps] at hu
      rcases List.mem_cons.mp hu with rfl | hu
      · exact .inr (.inl ⟨log.length, a, getElem?_snoc.mpr (.inr ⟨rfl, rfl⟩), hsource⟩)
      · exact .inl hu
  | missed hq =>
    exact h.keep hsnoc (List.suffix_refl _) h.held (fun he => by rcases he with he | he <;> cases he)
      (fun b hb => nomatch hb) (fun b hb => nomatch hb) fun t ht => .inl ht
  | other q =>
    exact h.keep hsnoc (List.suffix_refl _) h.held (fun he => by rcases he with he | he <;> cases he)
      (fun b hb => nomatch hb) (fun b hb => nomatch hb) fun t ht => .inl ht

end StampInv

theorem FifoRun.stampInv {cap : ℕ} {log : List (FifoEvent α)} {q : Option (List α)}
    (h : FifoRun cap log q) : StampInv cap log q := by
  induction h with
  | start => exact .start
  | snoc _ hstep ih => exact ih.step hstep

/-- **What a bounded queue does with its messages.** -/
theorem FifoRun.history {cap : ℕ} {log : List (FifoEvent α)} {q : Option (List α)}
    (h : FifoRun cap log q) : FifoHistory cap log := by
  -- The moment of a message that is taken is the first one in the queue before.
  have hhead : ∀ u a, log[u]? = some (.took a) → ∃ q, StampInv cap (log.take u) (some (a :: q)) := by
    intro u a hu
    obtain ⟨q, q', hrun, hstep⟩ := h.step_at hu
    cases hstep with
    | took a q => exact ⟨q, hrun.stampInv⟩
  have hsource : ∀ u a, log[u]? = some (.took a) →
      fifoSource cap log u ∈ fifoStamps cap (log.take u) ∧
        (log.take u)[fifoSource cap log u]? = some (.put a) := by
    intro u a hu
    obtain ⟨q, hinv⟩ := hhead u a hu
    obtain ⟨t, ts, ht, -, hstamps⟩ := List.forall₂_cons_right_iff.mp hinv.held
    have htu : fifoSource cap log u = t := by rw [fifoSource, hstamps]; rfl
    rw [htu, hstamps]
    exact ⟨List.mem_cons_self, ht⟩
  have hlt : ∀ {u i : ℕ} {e : FifoEvent α}, (log.take u)[i]? = some e → i < u ∧ log[i]? = some e := by
    intro u i e hi
    have hiu : i < u := by
      have := (List.getElem?_eq_some_iff.mp hi).1
      simp at this
      omega
    rw [List.getElem?_take_of_lt hiu] at hi
    exact ⟨hiu, hi⟩
  refine ⟨fun u a hu => hlt (hsource u a hu).2, fun u v a b hu hv huv => ?_, fun u a hu w hw he => ?_,
    fun t a ht n htn hn => ?_⟩
  · obtain ⟨q, hinv⟩ := hhead v b hv
    have := hinv.untaken _ (hsource v b hv).1 u a (by rwa [List.getElem?_take_of_lt huv])
    rwa [fifoSource_take log (Nat.le_of_lt huv)] at this
  · obtain ⟨q, hinv⟩ := hhead u a hu
    exact hinv.current _ (hsource u a hu).1 w (by rwa [List.getElem?_take_of_lt hw])
  · obtain ⟨q, hrun⟩ := h.take n
    exact hrun.stampInv.accounted t a (by rwa [List.getElem?_take_of_lt htn])

/-- A queue never holds more than its capacity. -/
theorem FifoRun.length_le {cap : ℕ} (hcap : 0 < cap) {log : List (FifoEvent α)}
    {q : Option (List α)} (h : FifoRun cap log q) : (q.getD []).length ≤ cap := by
  induction h with
  | start => exact Nat.zero_le _
  | snoc _ hstep ih =>
    cases hstep with
    | opened => exact Nat.zero_le _
    | closed q => exact Nat.zero_le _
    | put q a =>
      have hq : q.length ≤ cap := ih
      simp only [Option.getD_some, fifoPut, List.length_append, List.length_singleton]
      split
      · rw [List.length_tail]
        omega
      · omega
    | took a q => exact Nat.le_of_succ_le ih
    | missed hq => exact ih
    | other q => exact ih

/-- What a queue holds: the messages of the moments in it. -/
theorem FifoRun.held {cap : ℕ} {log : List (FifoEvent α)} {q : Option (List α)}
    (h : FifoRun cap log q) :
    List.Forall₂ (fun t a => log[t]? = some (.put a)) (fifoStamps cap log) (q.getD []) :=
  h.stampInv.held
