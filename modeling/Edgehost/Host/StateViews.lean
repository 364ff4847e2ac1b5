import Edgehost.Host.StateListing

/-!
# The answers for a namespace

A namespace that is not registered is answered with 400 and one that is disabled with 403. For one key the
store says which of the two it is. A listing only fails, and the route asks for the flag of the namespace
to find out why; it takes a namespace with the flag for an unknown one and all others for disabled, so
that an unknown one is answered with 403.
-/

namespace Edgehost

variable {η P υ : Type*}

/-- What a request for a namespace that cannot be used is to be answered. -/
def nsAnswer (st : StateStore) (ns : Bytes) : Option (ℤ × Bytes × Bytes) :=
  match findNs st ns with
  | none => some (400, bytes "Bad Request", errorBody (bytes "BAD_NS"))
  | some (_, n) =>
    if n.enabled then none else some (403, bytes "Forbidden", errorBody (bytes "NS_DISABLED"))

/-- An authorised PUT of a key. -/
structure StatePut (s : EdgeHttp1Serve η) (p : StatePath) : Prop where
  path : pathIsState s.path = some p
  method : s.method = bytes "PUT"
  authorised : Authorised s (edgeAuthClassify s.method s.path p.isList)
  key : ¬(p.isList ∨ p.key = [])

/-- The reply is the one that is asked for, if any is. -/
def AnswersNs (st : StateStore) (ns : Bytes) (r : Served η P υ) : Prop :=
  ∀ a, nsAnswer st ns = some a → Replies r a.1 a.2.1 a.2.2

theorem answerErr_replies (s : EdgeHttp1Serve η) (w : ServeWorld P υ) {outCap : ℕ}
    (hcap : 256 ≤ outCap) (e : EdgeStateErr) :
    Replies (answerErr s w outCap e) (errToHttp e).1 (errToHttp e).2.1 (errToHttp e).2.2 :=
  (answer_replies_iff s w (by omega) _ _ _).mpr ((length_errToHttp e).trans_le hcap)

/-- The error of a namespace that cannot be used. -/
theorem nsAnswer_eq_some {st : StateStore} {ns : Bytes} {a : ℤ × Bytes × Bytes}
    (h : nsAnswer st ns = some a) :
    (findNs st ns = none ∧ a = errToHttp .badNs) ∨
      ∃ i n, findNs st ns = some (i, n) ∧ n.enabled = false ∧ a = errToHttp .nsDisabled := by
  rw [nsAnswer] at h
  rcases hns : findNs st ns with _ | ⟨i, n⟩
  · rw [hns] at h
    exact Or.inl ⟨rfl, (Option.some.inj h).symm⟩
  · rw [hns] at h
    obtain ⟨hoff, h⟩ := Option.ite_none_left_eq_some.mp h
    exact Or.inr ⟨i, n, rfl, by simpa using hoff, (Option.some.inj h).symm⟩

/-- A GET of one key answers as it should. -/
theorem answersNs_get (s : EdgeHttp1Serve η) (w : ServeWorld P υ) {outCap : ℕ} (hcap : 256 ≤ outCap)
    (st : StateStore) {p : StatePath} (hkey : p.isList = false) :
    AnswersNs st p.ns (stateGetRoute s w outCap st p) := by
  intro a ha
  rw [stateGetRoute, if_neg (by rw [hkey]; decide), edgeStateGet]
  rcases nsAnswer_eq_some ha with ⟨hns, rfl⟩ | ⟨i, n, hns, hoff, rfl⟩
  · rw [hns]
    exact answerErr_replies s w hcap .badNs
  · rw [hns]
    dsimp only
    rw [hoff]
    exact answerErr_replies s w hcap .nsDisabled

/-- A PUT answers as it should. -/
theorem answersNs_put (env : ServeEnv η P υ) (s : EdgeHttp1Serve η) (w : ServeWorld P υ) {outCap : ℕ}
    (hcap : 256 ≤ outCap) (st : StateStore) {p : StatePath} {r : Served η P υ}
    (hr : statePutRoute env s w outCap st p = some r) : AnswersNs st p.ns r := by
  intro a ha
  have hput : ∃ value, r = answerChange env s w outCap p (bytes "put") (some value)
      (edgeStatePut st p.ns p.key value) := by
    unfold statePutRoute at hr
    split at hr
    · cases hr
    · split_ifs at hr
      exact ⟨_, (Option.some.inj hr).symm⟩
  obtain ⟨value, rfl⟩ := hput
  rcases nsAnswer_eq_some ha with ⟨hns, rfl⟩ | ⟨i, n, hns, hoff, rfl⟩
  · have hrefused : edgeStatePut st p.ns p.key value = (st, .badNs) := by
      rw [edgeStatePut, hns]
    rw [answerChange, hrefused, if_neg (show ¬EdgeStateErr.badNs = .ok by decide)]
    exact answerErr_replies s _ hcap .badNs
  · have hrefused : edgeStatePut st p.ns p.key value = (st, .nsDisabled) := by
      rw [edgeStatePut, hns]
      dsimp only
      rw [hoff]
      rfl
    rw [answerChange, hrefused, if_neg (show ¬EdgeStateErr.nsDisabled = .ok by decide)]
    exact answerErr_replies s _ hcap .nsDisabled

/-- A listing answers as it should exactly for the namespaces that are registered. -/
theorem answersNs_list_iff (s : EdgeHttp1Serve η) (w : ServeWorld P υ) {outCap : ℕ}
    (hcap : 256 ≤ outCap) (st : StateStore) {p : StatePath} (hlist : p.isList = true) :
    AnswersNs st p.ns (stateGetRoute s w outCap st p) ↔ (findNs st p.ns).isSome := by
  rw [stateGetRoute, if_pos hlist]
  rcases hns : findNs st p.ns with _ | ⟨i, n⟩
  · have hnone : edgeStateList st p.ns p.pfx 64 = none := by
      rw [edgeStateList, hns, if_neg (by decide)]
    have hflag : edgeStateNsEnabled st p.ns = false := by
      rw [edgeStateNsEnabled, hns]
    refine iff_of_false (fun h => ?_) (by simp)
    have ha : nsAnswer st p.ns = some (errToHttp .badNs) := by
      rw [nsAnswer, hns]
      rfl
    have hreply := h _ ha
    rw [hnone, hflag] at hreply
    -- the flag of no namespace is off, and so it is taken for a disabled one
    have hstatus : (errToHttp .badNs).1 = (errToHttp .nsDisabled).1 :=
      (replies_unique s w (by decide) (by decide) hreply).1
    exact absurd hstatus (by decide)
  · refine iff_of_true (fun a ha => ?_) rfl
    rcases nsAnswer_eq_some ha with ⟨hnone, -⟩ | ⟨j, m, hm, hoff, rfl⟩
    · rw [hns] at hnone
      cases hnone
    · have hnone : edgeStateList st p.ns p.pfx 64 = none := by
        rw [edgeStateList, hm, if_neg (by decide)]
        dsimp only
        rw [hoff]
        rfl
      have hflag : edgeStateNsEnabled st p.ns = false := by
        rw [edgeStateNsEnabled, hm]
        exact hoff
      rw [hnone, hflag]
      exact answerErr_replies s w hcap .nsDisabled

/-- **When the three views of a namespace agree.** For every state of the store and three authorised
requests for one namespace, a listing, a GET of a key and a PUT, all of them are answered as they should
be exactly when the namespace is registered. -/
theorem nsViews_agree_iff (env : ServeEnv η P υ) {w : ServeWorld P υ} {outCap : ℕ}
    (hcap : 256 ≤ outCap) {st : StateStore} (hst : w.store = some st) {ns : Bytes}
    {listing get put : EdgeHttp1Serve η} {pl pg pp : StatePath} {r : Served η P υ}
    (hlist : StateGet listing pl ∧ pl.isList = true ∧ pl.ns = ns)
    (hget : StateGet get pg ∧ pg.isList = false ∧ pg.ns = ns) (hput : StatePut put pp ∧ pp.ns = ns)
    (hr : dispatchState env put w outCap = some r) :
    (AnswersNs st ns (dispatch env listing w outCap) ∧ AnswersNs st ns (dispatch env get w outCap) ∧
      AnswersNs st ns r) ↔ (findNs st ns).isSome := by
  obtain ⟨hlreq, hisList, rfl⟩ := hlist
  obtain ⟨hgreq, hone, hgns⟩ := hget
  obtain ⟨hpreq, hpns⟩ := hput
  have hputs : AnswersNs st pp.ns r := by
    rw [dispatchState, hpreq.path] at hr
    dsimp only at hr
    rw [requireRbac_of_authorised hpreq.authorised, hst] at hr
    dsimp only at hr
    rw [if_neg (by rw [hpreq.method]; decide), if_pos hpreq.method, if_neg hpreq.key] at hr
    exact answersNs_put env put w hcap st hr
  have hgets : AnswersNs st pg.ns (dispatch env get w outCap) := by
    rw [dispatch_stateGet env hgreq hst]
    exact answersNs_get get w hcap st hone
  rw [dispatch_stateGet env hlreq hst, answersNs_list_iff listing w hcap st hisList]
  rw [hgns] at hgets
  rw [hpns] at hputs
  exact ⟨fun h => h.1, fun h => ⟨h, hgets, hputs⟩⟩

/-! ## A new store -/

/-- A new store with the namespaces that are registered from the start. -/
def newStore : StateStore := edgeStateCreateWithConfig ⟨1, 8⟩

/-- A PUT with an empty body. -/
def putServe (path : Bytes) : EdgeHttp1Serve Unit :=
  { getServe path with
    method := bytes "PUT"
    bodyOff := some 0 }

def disabledList : Bytes := bytes "/api/v1/state/net.pon"

def disabledKey : Bytes := bytes "/api/v1/state/net.pon/k"

/-- A namespace that is disabled from the start: all three views say so. -/
theorem nsViews_agree_disabled : ∃ r,
    dispatchState (getEnv disabledKey) (putServe disabledKey) (storeWorld newStore) 2048 = some r ∧
      AnswersNs newStore (bytes "net.pon")
        (dispatch (getEnv disabledKey) (getServe disabledList) (storeWorld newStore) 2048) ∧
      AnswersNs newStore (bytes "net.pon")
        (dispatch (getEnv disabledKey) (getServe disabledKey) (storeWorld newStore) 2048) ∧
      AnswersNs newStore (bytes "net.pon") r := by
  have hsome : (dispatchState (getEnv disabledKey) (putServe disabledKey) (storeWorld newStore)
      2048).isSome = true := by decide +kernel
  obtain ⟨r, hr⟩ := Option.isSome_iff_exists.mp hsome
  have hlist : StateGet (getServe disabledList) ⟨bytes "net.pon", [], [], true⟩ :=
    ⟨by decide +kernel, rfl, fun h => absurd h (by decide)⟩
  have hget : StateGet (getServe disabledKey) ⟨bytes "net.pon", bytes "k", [], false⟩ :=
    ⟨by decide +kernel, rfl, fun h => absurd h (by decide)⟩
  have hput : StatePut (putServe disabledKey) ⟨bytes "net.pon", bytes "k", [], false⟩ :=
    ⟨by decide +kernel, rfl, fun h => absurd h (by decide), by decide⟩
  exact ⟨r, hr, (nsViews_agree_iff (getEnv disabledKey) (by decide) rfl ⟨hlist, rfl, rfl⟩
    ⟨hget, rfl, rfl⟩ ⟨hput, rfl⟩ hr).mpr (by decide +kernel)⟩

/-- A listing of an unknown namespace is answered with 403. -/
theorem not_answersNs_unknown :
    findNs newStore (bytes "nowhere") = none ∧
      ¬ AnswersNs newStore (bytes "nowhere")
        (dispatch (getEnv listPath) (getServe (bytes "/api/v1/state/nowhere")) (storeWorld newStore)
          2048) := by
  have hns : findNs newStore (bytes "nowhere") = none := by decide +kernel
  have hlist : StateGet (getServe (bytes "/api/v1/state/nowhere")) ⟨bytes "nowhere", [], [], true⟩ :=
    ⟨by decide +kernel, rfl, fun h => absurd h (by decide)⟩
  refine ⟨hns, ?_⟩
  rw [dispatch_stateGet (getEnv listPath) hlist rfl]
  have hiff := answersNs_list_iff (getServe (bytes "/api/v1/state/nowhere")) (storeWorld newStore)
    (show 256 ≤ 2048 by decide) newStore (p := ⟨bytes "nowhere", [], [], true⟩) rfl
  rw [hns] at hiff
  exact fun h => absurd (hiff.mp h) (by decide)

end Edgehost
