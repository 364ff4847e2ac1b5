import Edgehost.Core.StateRuns
import Edgehost.Host.HubRuns

/-!
# Which stored values are announced

A value that the store takes is announced to the subscribers in one `STATE_CHANGED` text of less than
`EDGE_WS_MSG_MAX` bytes. The limit of the store is set on its own, up to `EDGE_STATE_VALUE_MAX`, so a
store may hold values that no text has room for.

* `stateChangedFits_put_iff`: the checks of the formatter as one bound on the lengths.
* `putHeard_iff`: the values that are announced, over every store and every hub.
-/

namespace Edgehost

/-- The put of a value reaches every active subscriber of the hub. -/
structure PutHeard (h : EdgeWsHub) (ns key value requestId : Bytes) : Prop where
  formatted : (edgeWsFormatStateChanged EDGE_WS_MSG_MAX ns key (bytes "put") (some value)
    (some requestId)).isSome
  queued : ∀ i, (edgeWsHubBroadcastStateChanged h (fun _ => true) ns key (bytes "put") (some value)
      (some requestId)).1.queue i
    = (h.queue i).map (enqueue (stateChangedText ns key (bytes "put") (some value) (some requestId)))
  counted : (edgeWsHubBroadcastStateChanged h (fun _ => true) ns key (bytes "put") (some value)
      (some requestId)).2 = (h.subs.filter EdgeWsSub.active).length

/-- The text of a put has room in the buffer: the variable parts, the fixed text before the value, and
behind it the tail or the 40 bytes kept for it. -/
def AnnouncementFits (ns key value requestId : Bytes) : Prop :=
  60 + ns.length + key.length + value.length + max 40 (requestId.length + 17) < EDGE_WS_MSG_MAX

instance (ns key value requestId : Bytes) : Decidable (AnnouncementFits ns key value requestId) :=
  inferInstanceAs (Decidable (_ < _))

/-! ## Lengths -/

theorem length_stateChangedHead_put (ns key : Bytes) :
    (stateChangedHead ns key (bytes "put")).length = 60 + ns.length + key.length := by
  have hfixed : (stateChangedHead [] [] (bytes "put")).length = 60 := by decide
  simp only [stateChangedHead, List.length_append, List.length_nil] at hfixed ⊢
  omega

theorem length_stateChangedTail (requestId : Bytes) :
    (stateChangedTail requestId).length = requestId.length + 17 := by
  have hfixed : (stateChangedTail []).length = 17 := by decide
  simp only [stateChangedTail, List.length_append, List.length_nil] at hfixed ⊢
  omega

/-- With a value, the two checks of the formatter are one bound on the lengths. -/
theorem stateChangedFits_put_iff {ns key value requestId : Bytes} (hvalue : value ≠ []) :
    StateChangedFits EDGE_WS_MSG_MAX ns key (bytes "put") (some value) (some requestId) ↔
      AnnouncementFits ns key value requestId := by
  have hcap : 32 ≤ EDGE_WS_MSG_MAX := by decide
  unfold StateChangedFits stateChangedText AnnouncementFits
  simp only [Option.getD_some, ne_eq, hvalue, not_false_eq_true, if_true, true_imp_iff,
    List.length_append, length_stateChangedHead_put, length_stateChangedTail]
  omega

/-! ## What a put stores -/

theorem ne_nil_of_edgeStateJsonOk {value : Bytes} (h : edgeStateJsonOk value = true) :
    value ≠ [] := by
  rintro rfl
  exact absurd h (by decide)

/-- A put that passes all checks takes a free entry. -/
theorem edgeStatePut_free {st : StateStore} {ns key value : Bytes} {i j : ℕ} {n : StateNs}
    {e : StateEntry} (hns : findNs st ns = some (i, n)) (hon : n.enabled = true)
    (hkey : edgeStateKeyValid key = true) (hlen : value.length ≤ st.maxValue)
    (hjson : edgeStateJsonOk value = true) (hentry : findEntry n key = none)
    (hfree : findFree n = some (j, e)) : (edgeStatePut st ns key value).2 = .ok := by
  unfold edgeStatePut
  rw [hns]
  dsimp only
  rw [hon, hkey, hjson, if_neg (by decide), if_neg (by decide), if_neg (Nat.not_lt.mpr hlen),
    if_neg (by decide), hentry, hfree]

/-! ## The broadcast -/

/-- With memory for every copy, a push counts the active subscribers. -/
theorem EdgeWsHub.count_push (h : EdgeWsHub) (msg : Bytes) :
    (h.push msg fun _ => true).2 = (h.subs.filter EdgeWsSub.active).length := by
  have hret : ∀ s : EdgeWsSub, (subPush s msg true).2 = 0 ↔ s.active = true := by
    intro s
    unfold subPush
    cases s.active <;> simp
  unfold EdgeWsHub.push
  dsimp only
  rw [← List.length_map Prod.fst]
  have hmap : ∀ (xs : List EdgeWsSub) (k : ℕ),
      ((xs.zipIdx k).filter fun p => (subPush p.1 msg true).2 = 0).map Prod.fst
        = xs.filter EdgeWsSub.active := by
    intro xs
    induction xs with
    | nil =>
      intro k
      rfl
    | cons x xs ih =>
      intro k
      rw [List.zipIdx_cons, List.filter_cons, List.filter_cons]
      by_cases hx : x.active = true
      · rw [if_pos (by simpa using (hret x).mpr hx), if_pos hx, List.map_cons, ih]
      · rw [if_neg (by simpa using fun h => hx ((hret x).mp h)), if_neg hx, ih]
  rw [hmap]

theorem putHeard_of_fits {h : EdgeWsHub} (hwf : h.WF) {ns key value requestId : Bytes}
    (hfits : StateChangedFits EDGE_WS_MSG_MAX ns key (bytes "put") (some value) (some requestId)) :
    PutHeard h ns key value requestId := by
  have hformat := edgeWsFormatStateChanged_eq_some.mpr ⟨hfits, rfl⟩
  refine ⟨Option.isSome_iff_exists.mpr ⟨_, hformat⟩, ?_, ?_⟩
  · intro i
    rw [edgeWsHubBroadcastStateChanged_queue hwf (fun _ => rfl), if_pos hfits]
  · unfold edgeWsHubBroadcastStateChanged
    rw [hformat]
    exact h.count_push _

/-- A stored value is announced exactly when its text has room. -/
theorem putHeard_iff_fits {h : EdgeWsHub} (hwf : h.WF) {st : StateStore} {ns key value : Bytes}
    (hput : (edgeStatePut st ns key value).2 = .ok) (requestId : Bytes) :
    PutHeard h ns key value requestId ↔ AnnouncementFits ns key value requestId := by
  have hvalue := ne_nil_of_edgeStateJsonOk (edgeStatePut_ok_args hput).2.1
  rw [← stateChangedFits_put_iff hvalue]
  constructor
  · intro hheard
    obtain ⟨msg, hmsg⟩ := Option.isSome_iff_exists.mp hheard.formatted
    exact (edgeWsFormatStateChanged_eq_some.mp hmsg).1
  · exact putHeard_of_fits hwf

/-- **Which stored values are announced.** In every reachable store and hub, a put that is stored reaches
every active subscriber exactly when the lengths of its parts leave room in the message buffer. -/
theorem putHeard_iff (cfg : EdgeStateConfig) (ops : List StateOp) (maxSubs : ℕ)
    (hubOps : List HubOp) {ns key value : Bytes}
    (hput : (edgeStatePut (runFrom StateRun.step (.create cfg) ops).store ns key value).2 = .ok)
    (requestId : Bytes) :
    PutHeard (runFrom hubStep (edgeWsHubCreate maxSubs) hubOps) ns key value requestId ↔
      AnnouncementFits ns key value requestId :=
  putHeard_iff_fits (hubInv_run maxSubs hubOps).wf hput requestId

/-- A short value in a small store, announced to one subscriber. -/
theorem putHeard_iff_short :
    PutHeard (runFrom hubStep (edgeWsHubCreate 1) [.subscribe 0]) (bytes "net.core") (bytes "k")
        (bytes "1") (bytes "r") ↔
      AnnouncementFits (bytes "net.core") (bytes "k") (bytes "1") (bytes "r") :=
  putHeard_iff ⟨1, 16⟩ [] 1 [.subscribe 0] (by decide) (bytes "r")

/-- A number of 4600 digits. -/
def longNumber : Bytes := List.replicate 4600 (charByte '1')

/-- The store takes it when its limit allows. -/
theorem edgeStatePut_longNumber :
    (edgeStatePut (edgeStateCreateWithConfig ⟨1, 5000⟩) (bytes "net.core") (bytes "k") longNumber).2
      = .ok := by
  refine edgeStatePut_free (i := 0) (j := 0) rfl rfl (by decide) ?_ rfl rfl rfl
  rw [longNumber, List.length_replicate]
  decide

/-- A stored value that no subscriber hears of. -/
theorem not_putHeard_longNumber :
    ¬ ∀ (cfg : EdgeStateConfig) (ops : List StateOp) (maxSubs : ℕ) (hubOps : List HubOp)
      (ns key value requestId : Bytes), requestId.length ≤ 47 →
      (edgeStatePut (runFrom StateRun.step (.create cfg) ops).store ns key value).2 = .ok →
      PutHeard (runFrom hubStep (edgeWsHubCreate maxSubs) hubOps) ns key value requestId := by
  intro hall
  have hheard := hall ⟨1, 5000⟩ [] 1 [.subscribe 0] _ _ _ [] (Nat.zero_le _) edgeStatePut_longNumber
  have hfits := (putHeard_iff_fits (hubInv_run 1 [.subscribe 0]).wf edgeStatePut_longNumber []).mp hheard
  rw [AnnouncementFits, longNumber, List.length_replicate] at hfits
  exact absurd hfits (by decide)

end Edgehost
