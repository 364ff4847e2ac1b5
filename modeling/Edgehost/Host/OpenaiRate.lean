import Edgehost.Common.Runs
import Edgehost.Host.PluginRequests

/-!
# The rate limit of the OpenAI proxy

The limiter counts the requests since `window_start`, and starts a new window with the first request after
60 seconds. A window that starts while requests of the last one are less than 60 seconds old forgets
them, and then up to twice as many requests pass within 60 seconds.

* `within_of_keepsWindow`: the bound holds in every state of a run in which no window starts so.
* `forgotten_exceeds`: where one does, enough requests at once exceed the bound.
-/

namespace Edgehost

/-! ## The limiter -/

/-- A request passes all checks before the limiter. -/
def reachesLimiter (d : OpenaiData) (req : EdgeHttpReq) : Bool :=
  d.cfg.enabled && principalAllowed req.principal && routeAllowed req.method req.path &&
    bodyLooksOk req.body req.method

/-- The limiter starts a new window. -/
def OpenaiData.Restarts (d : OpenaiData) (now : ℤ) : Prop := d.windowStart = 0 ∨ now - d.windowStart ≥ 60

instance (d : OpenaiData) (now : ℤ) : Decidable (d.Restarts now) := inferInstanceAs (Decidable (_ ∨ _))

/-- The members that the limiter reads and writes. -/
def OpenaiData.limiter (d : OpenaiData) : EdgeOpenaiProxyConfig × ℕ × ℤ :=
  (d.cfg, d.hitN, d.windowStart)

/-- What `on_http` does to the limiter. -/
def limited (now : ℤ) (req : EdgeHttpReq) (d : OpenaiData) : OpenaiData :=
  if reachesLimiter d req then (rateLimitOk now d).1 else d

/-- A request is admitted by the limiter. -/
def admits (now : ℤ) (req : EdgeHttpReq) (d : OpenaiData) : Bool :=
  reachesLimiter d req && (rateLimitOk now d).2

/-- **What the limiter does**, with a limit: it starts a window when it is time to, and then admits as long
as the count is below the limit. -/
theorem rateLimitOk_cases {d : OpenaiData} (hrpm : d.cfg.rateLimitRpm ≠ 0)
    (hfits : d.hitN ≤ d.cfg.rateLimitRpm.toNat) (now : ℤ) :
    ∃ d' : OpenaiData, d'.cfg = d.cfg ∧
      ((d.Restarts now ∧ d'.windowStart = now ∧ d'.hitN = 0) ∨ (¬d.Restarts now ∧ d' = d)) ∧
      ((d'.hitN < d.cfg.rateLimitRpm.toNat ∧ (rateLimitOk now d).2 = true ∧
          (rateLimitOk now d).1 = { d' with hitN := d'.hitN + 1 }) ∨
        (d.cfg.rateLimitRpm.toNat ≤ d'.hitN ∧ (rateLimitOk now d).2 = false ∧
          (rateLimitOk now d).1 = d')) := by
  have hcount : ∀ d' : OpenaiData, d'.cfg = d.cfg → d'.hitN ≤ d.cfg.rateLimitRpm.toNat →
      (UInt32.ofNat d'.hitN ≥ d'.cfg.rateLimitRpm ↔ d.cfg.rateLimitRpm.toNat ≤ d'.hitN) := by
    intro d' hcfg hle
    have hlt := d.cfg.rateLimitRpm.toNat_lt
    rw [ge_iff_le, UInt32.le_iff_toNat_le, UInt32.toNat_ofNat', Nat.mod_eq_of_lt (by omega), hcfg]
  rw [rateLimitOk, if_neg hrpm]
  by_cases hrestart : d.Restarts now
  · have hcounted := hcount { d with windowStart := now, hitN := 0 } rfl (Nat.zero_le _)
    refine ⟨{ d with windowStart := now, hitN := 0 }, rfl, Or.inl ⟨hrestart, rfl, rfl⟩, ?_⟩
    rw [if_pos (show d.windowStart = 0 ∨ now - d.windowStart ≥ 60 from hrestart)]
    dsimp only at hcounted ⊢
    by_cases hfull : UInt32.ofNat 0 ≥ d.cfg.rateLimitRpm
    · rw [if_pos hfull]
      exact Or.inr ⟨hcounted.mp hfull, rfl, rfl⟩
    · rw [if_neg hfull]
      exact Or.inl ⟨not_le.mp fun h => hfull (hcounted.mpr h), rfl, rfl⟩
  · have hcounted := hcount d rfl hfits
    refine ⟨d, rfl, Or.inr ⟨hrestart, rfl⟩, ?_⟩
    rw [if_neg (show ¬(d.windowStart = 0 ∨ now - d.windowStart ≥ 60) from hrestart)]
    dsimp only
    by_cases hfull : UInt32.ofNat d.hitN ≥ d.cfg.rateLimitRpm
    · rw [if_pos hfull]
      exact Or.inr ⟨hcounted.mp hfull, rfl, rfl⟩
    · rw [if_neg hfull]
      exact Or.inl ⟨not_le.mp fun h => hfull (hcounted.mpr h), rfl, rfl⟩

/-- `on_http` touches the limiter in `rate_limit_ok` only, whatever the host answers. -/
theorem openaiOnHttp_limiter {σ : Type*} (answer : σ → ApiCall → σ × ApiReply) (now : ℤ) (alloc : Bool)
    (req : EdgeHttpReq) (res : EdgeHttpRes) (d : OpenaiData) (s : σ) :
    ((openaiOnHttp now alloc req res d).run answer s).2.mem.limiter = (limited now req d).limiter := by
  have hask : ∀ d : OpenaiData, ((openaiAsk alloc req res d).run answer s).2.mem.limiter = d.limiter := by
    intro d
    rw [openaiAsk, Client.run, Client.run, openaiReplied]
    split_ifs <;> rfl
  unfold openaiOnHttp
  by_cases hreach : reachesLimiter d req = true
  · rw [limited, if_pos hreach]
    simp only [reachesLimiter, Bool.and_eq_true] at hreach
    obtain ⟨⟨⟨henabled, hprincipal⟩, hroute⟩, hbody⟩ := hreach
    rw [henabled, hprincipal, hroute, hbody, if_neg (by decide), if_neg (by decide), if_neg (by decide),
      if_neg (by decide)]
    dsimp only
    split_ifs
    · rfl
    · rfl
    · rfl
    · exact hask _
  · rw [limited, if_neg hreach]
    split_ifs with hoff hprincipal hroute hbody
    · rfl
    · rfl
    · rfl
    · rfl
    all_goals exact absurd (by simp_all [reachesLimiter]) hreach

/-- `on_http_complete` does not touch it. -/
theorem openaiOnHttpComplete_limiter (up : EdgeHttpClientResult) (res : EdgeHttpRes) (d : OpenaiData) :
    (openaiOnHttpComplete up res d).mem.limiter = d.limiter := by
  have hdec : (if d.inFlight > 0 then { d with inFlight := d.inFlight - 1 } else d).limiter =
      d.limiter := by
    split_ifs <;> rfl
  rw [← hdec]
  unfold openaiOnHttpComplete
  simp only
  split_ifs <;> rfl

/-! ## Windows -/

/-- How many of these times fall in the 60 seconds from `a` on. -/
def inWindow (a : ℤ) (times : List ℤ) : ℕ := times.countP fun t => a ≤ t ∧ t < a + 60

theorem inWindow_eq_zero {a : ℤ} {times : List ℤ} (h : ∀ t ∈ times, ¬(a ≤ t ∧ t < a + 60)) :
    inWindow a times = 0 :=
  List.countP_eq_zero.mpr fun t ht => by simpa using h t ht

theorem inWindow_append (a : ℤ) (before after : List ℤ) :
    inWindow a (before ++ after) = inWindow a before + inWindow a after :=
  List.countP_append

/-- Times that are at least 60 seconds apart from those before do not share a window with them. -/
theorem inWindow_append_le {before after : List ℤ} {w : ℤ} {n : ℕ} (hbefore : ∀ t ∈ before, t + 60 ≤ w)
    (hafter : ∀ t ∈ after, w ≤ t) (hlen : after.length ≤ n) (hle : ∀ a, inWindow a before ≤ n) (a : ℤ) :
    inWindow a (before ++ after) ≤ n := by
  have hsum := inWindow_append a before after
  by_cases hshared : ∃ t ∈ after, a ≤ t ∧ t < a + 60
  · obtain ⟨t, ht, -, hlt⟩ := hshared
    have hnone : inWindow a before = 0 := by
      refine inWindow_eq_zero fun s hs hwin => ?_
      have := hbefore s hs
      have := hafter t ht
      omega
    have hcount : inWindow a after ≤ after.length := List.countP_le_length
    omega
  · have hnone : inWindow a after = 0 :=
      inWindow_eq_zero fun t ht hwin => hshared ⟨t, ht, hwin⟩
    have := hle a
    omega

/-! ## Runs -/

/-- What happens to the plugin: a request, with what the host answers to it, or an upstream result. -/
inductive ProxyEvent where
  | request (now : ℤ) (alloc : Bool) (req : EdgeHttpReq) (res : EdgeHttpRes) (reply : ApiReply)
  | complete (up : EdgeHttpClientResult) (res : EdgeHttpRes)

/-- The memory of the plugin, the time of the last request and the times of the admitted ones. -/
structure ProxyRun where
  data : OpenaiData
  clock : ℤ
  admitted : List ℤ

namespace ProxyRun

/-- A new plugin. -/
def start (cfg : EdgeOpenaiProxyConfig) (apiKey : Bytes) (clock : ℤ) : ProxyRun :=
  ⟨openaiData cfg apiKey, clock, []⟩

/-- One event. -/
def step (r : ProxyRun) : ProxyEvent → ProxyRun
  | .request now alloc req res reply =>
    { data := ((openaiOnHttp now alloc req res r.data).run (fun _ _ => ((), reply)) ()).2.mem
      clock := now
      admitted := r.admitted ++ if admits now req r.data then [now] else [] }
  | .complete up res => { r with data := (openaiOnHttpComplete up res r.data).mem }

/-- At most this many requests were admitted in any 60 consecutive seconds. -/
def Within (rpm : UInt32) (r : ProxyRun) : Prop := ∀ a, inWindow a r.admitted ≤ rpm.toNat

/-- The clock does not go back. -/
def ClockMoves (r : ProxyRun) : ProxyEvent → Prop
  | .request now _ _ _ _ => r.clock ≤ now
  | .complete _ _ => True

/-- A request does not start a new window while an admitted one is less than 60 seconds old. -/
def KeepsWindow (r : ProxyRun) : ProxyEvent → Prop
  | .request now _ req _ _ =>
    reachesLimiter r.data req = true → r.data.Restarts now → ∀ t ∈ r.admitted, t + 60 ≤ now
  | .complete _ _ => True

/-- The invariant: the times behind the start of the window are as many as the count, and all others
are 60 seconds before it. -/
structure Inv (cfg : EdgeOpenaiProxyConfig) (r : ProxyRun) : Prop where
  cfg_eq : r.data.cfg = cfg
  hit_le : r.data.hitN ≤ cfg.rateLimitRpm.toNat
  past : ∀ t ∈ r.admitted, t ≤ r.clock
  window : r.data.windowStart = 0 ∨ r.data.windowStart ≤ r.clock
  within : r.Within cfg.rateLimitRpm
  split : ∃ before after, r.admitted = before ++ after ∧ after.length = r.data.hitN ∧
    (∀ t ∈ before, t + 60 ≤ r.data.windowStart) ∧ ∀ t ∈ after, r.data.windowStart ≤ t

theorem start_inv (cfg : EdgeOpenaiProxyConfig) (apiKey : Bytes) (clock : ℤ) :
    (start cfg apiKey clock).Inv cfg where
  cfg_eq := rfl
  hit_le := Nat.zero_le _
  past t ht := absurd ht List.not_mem_nil
  window := Or.inl rfl
  within a := Nat.zero_le _
  split := ⟨[], [], rfl, rfl, by simp, by simp⟩

variable {cfg : EdgeOpenaiProxyConfig}

/-- The invariant looks at the limiter only. -/
theorem Inv.of_limiter {r : ProxyRun} (h : r.Inv cfg) {d : OpenaiData}
    (hd : d.limiter = r.data.limiter) {now : ℤ} (hnow : r.clock ≤ now) :
    (⟨d, now, r.admitted⟩ : ProxyRun).Inv cfg := by
  obtain ⟨hcfg, hrest⟩ := Prod.mk.inj hd
  obtain ⟨hhit, hwindow⟩ := Prod.mk.inj hrest
  refine ⟨hcfg.trans h.cfg_eq, ?_, fun t ht => (h.past t ht).trans hnow, ?_, h.within, ?_⟩
  · show d.hitN ≤ _
    rw [hhit]
    exact h.hit_le
  · show d.windowStart = 0 ∨ d.windowStart ≤ now
    rw [hwindow]
    exact h.window.imp_right fun hle => hle.trans hnow
  · obtain ⟨before, after, hsplit, hlen, hbefore, hafter⟩ := h.split
    refine ⟨before, after, hsplit, hlen.trans hhit.symm, ?_, ?_⟩
    · show ∀ t ∈ before, t + 60 ≤ d.windowStart
      rw [hwindow]
      exact hbefore
    · show ∀ t ∈ after, d.windowStart ≤ t
      rw [hwindow]
      exact hafter

/-- **One request.** -/
theorem Inv.limited {r : ProxyRun} (h : r.Inv cfg) (hrpm : cfg.rateLimitRpm ≠ 0) {now : ℤ}
    (hnow : r.clock ≤ now) (hkeep : r.data.Restarts now → ∀ t ∈ r.admitted, t + 60 ≤ now) :
    (⟨(rateLimitOk now r.data).1, now,
      r.admitted ++ if (rateLimitOk now r.data).2 then [now] else []⟩ : ProxyRun).Inv cfg := by
  have hcfg := h.cfg_eq
  obtain ⟨d, hd, hwindow, hcount⟩ := rateLimitOk_cases (d := r.data) (by rw [hcfg]; exact hrpm)
    (by rw [hcfg]; exact h.hit_le) now
  rw [hcfg] at hd hcount
  -- the times so far, as the new window parts them
  have hsplit : ∃ before after, r.admitted = before ++ after ∧ after.length = d.hitN ∧
      (∀ t ∈ before, t + 60 ≤ d.windowStart) ∧ (∀ t ∈ after, d.windowStart ≤ t) ∧
      d.windowStart ≤ now := by
    rcases hwindow with ⟨hrestart, hstart, hzero⟩ | ⟨hsame, rfl⟩
    · exact ⟨r.admitted, [], (List.append_nil _).symm, hzero.symm, by
        rw [hstart]
        exact hkeep hrestart, by simp, hstart.le⟩
    · obtain ⟨before, after, hadm, hlen, hbefore, hafter⟩ := h.split
      refine ⟨before, after, hadm, hlen, hbefore, hafter, ?_⟩
      exact (h.window.resolve_left fun hzero => hsame (Or.inl hzero)).trans hnow
  obtain ⟨before, after, hadm, hlen, hbefore, hafter, hstart⟩ := hsplit
  have hpast : ∀ t ∈ r.admitted, t ≤ now := fun t ht => (h.past t ht).trans hnow
  have holder : ∀ a, inWindow a before ≤ cfg.rateLimitRpm.toNat := by
    intro a
    have hall := h.within a
    rw [hadm, inWindow_append] at hall
    omega
  rcases hcount with ⟨hroom, hok, hmem⟩ | ⟨hfull, hok, hmem⟩
  · rw [hok, hmem, if_pos rfl]
    have hnew : (after ++ [now]).length = d.hitN + 1 := by
      rw [List.length_append, hlen, List.length_singleton]
    have hlate : ∀ t ∈ after ++ [now], d.windowStart ≤ t := by
      intro t ht
      rcases List.mem_append.mp ht with ht | ht
      · exact hafter t ht
      · rw [List.mem_singleton.mp ht]
        exact hstart
    refine ⟨hd, Nat.succ_le_of_lt hroom, ?_, Or.inr hstart, fun a => ?_,
      ⟨before, after ++ [now], ?_, hnew, hbefore, hlate⟩⟩
    · intro t ht
      rcases List.mem_append.mp ht with ht | ht
      · exact hpast t ht
      · exact (List.mem_singleton.mp ht).le
    · show inWindow a (r.admitted ++ [now]) ≤ _
      rw [hadm, List.append_assoc]
      exact inWindow_append_le hbefore hlate (by omega) holder a
    · show r.admitted ++ [now] = _
      rw [hadm, List.append_assoc]
  · rw [hok, hmem, if_neg (by decide), List.append_nil]
    have hle : d.hitN ≤ cfg.rateLimitRpm.toNat := by
      rcases hwindow with ⟨-, -, hzero⟩ | ⟨-, rfl⟩
      · omega
      · exact h.hit_le
    exact ⟨hd, hle, hpast, Or.inr hstart, h.within, ⟨before, after, hadm, hlen, hbefore, hafter⟩⟩

/-- Every permitted event keeps the invariant. -/
theorem step_inv (hrpm : cfg.rateLimitRpm ≠ 0) (r : ProxyRun) (e : ProxyEvent) (h : r.Inv cfg)
    (hok : r.ClockMoves e ∧ r.KeepsWindow e) : (r.step e).Inv cfg := by
  obtain ⟨hclock, hkeep⟩ := hok
  cases e with
  | request now alloc req res reply =>
    have hlimiter := openaiOnHttp_limiter (fun _ _ => ((), reply)) now alloc req res r.data ()
    by_cases hreach : reachesLimiter r.data req = true
    · have hadmits : admits now req r.data = (rateLimitOk now r.data).2 := by
        rw [admits, hreach, Bool.true_and]
      have hlimited := h.limited hrpm hclock (hkeep hreach)
      rw [Edgehost.limited, if_pos hreach] at hlimiter
      rw [step, hadmits]
      exact hlimited.of_limiter hlimiter le_rfl
    · have hadmits : admits now req r.data = false := by
        rw [admits, Bool.eq_false_iff.mpr hreach, Bool.false_and]
      rw [Edgehost.limited, if_neg hreach] at hlimiter
      rw [step, hadmits, if_neg (by decide), List.append_nil]
      exact h.of_limiter hlimiter hclock
  | complete up res =>
    rw [step]
    exact h.of_limiter (openaiOnHttpComplete_limiter up res r.data) le_rfl

/-- **The rate limit.** In every run under a clock that does not go back, with a limit that is not zero,
at most that many requests are admitted in any 60 consecutive seconds, if no window starts while an
admitted request is less than 60 seconds old. -/
theorem within_of_keepsWindow (hrpm : cfg.rateLimitRpm ≠ 0) (apiKey : Bytes) (clock : ℤ)
    (es : List ProxyEvent)
    (hrun : EachStep step (fun r e => r.ClockMoves e ∧ r.KeepsWindow e) (start cfg apiKey clock) es) :
    Always step (Within cfg.rateLimitRpm) (start cfg apiKey clock) es :=
  (EachStep.always (step_inv hrpm) (start_inv cfg apiKey clock) hrun).mono fun _ h => h.within

/-- A window that starts too early admits as many requests at once as the limit says. -/
theorem runFrom_replicate (hrpm : cfg.rateLimitRpm ≠ 0) {r : ProxyRun} (h : r.Inv cfg) {now : ℤ}
    (alloc : Bool) {req : EdgeHttpReq} (res : EdgeHttpRes) (reply : ApiReply)
    (hreach : reachesLimiter r.data req = true) (hrestart : r.data.Restarts now) {k : ℕ}
    (hk : k ≤ cfg.rateLimitRpm.toNat) :
    ∃ r' : ProxyRun, runFrom step r (List.replicate k (.request now alloc req res reply)) = r' ∧
      r'.data.cfg = cfg ∧ r'.data.hitN ≤ cfg.rateLimitRpm.toNat ∧
      r'.admitted = r.admitted ++ List.replicate k now ∧
      ((r'.data.Restarts now ∧ (k = 0 ∨ now = 0)) ∨ (¬r'.data.Restarts now ∧ r'.data.hitN = k)) := by
  induction k with
  | zero => exact ⟨r, rfl, h.cfg_eq, h.hit_le, (List.append_nil _).symm, Or.inl ⟨hrestart, Or.inl rfl⟩⟩
  | succ k ih =>
    obtain ⟨r', hr', hcfg, hhit, hadm, hstate⟩ := ih (by omega)
    have hreach' : reachesLimiter r'.data req = true := by
      rw [reachesLimiter, hcfg, ← h.cfg_eq]
      exact hreach
    obtain ⟨d, hd, hwindow, hcount⟩ := rateLimitOk_cases (d := r'.data) (by rw [hcfg]; exact hrpm)
      (by rw [hcfg]; exact hhit) now
    rw [hcfg] at hd hcount
    -- One more is admitted as long as the window has room; a window that starts over has.
    have hlow : d.hitN < cfg.rateLimitRpm.toNat := by
      rcases hwindow with ⟨-, -, hzero⟩ | ⟨hno, rfl⟩
      · omega
      · rcases hstate with ⟨hyes, -⟩ | hk'
        · exact absurd hyes hno
        · have := hk'.2
          omega
    obtain ⟨-, hok, hmem⟩ := hcount.resolve_right fun hfull => absurd hfull.1 (not_le.mpr hlow)
    have hlimiter := openaiOnHttp_limiter (fun _ _ => ((), reply)) now alloc req res r'.data ()
    rw [Edgehost.limited, if_pos hreach', hmem] at hlimiter
    obtain ⟨hcfg', hrest⟩ := Prod.mk.inj hlimiter
    obtain ⟨hhit', hwindow'⟩ := Prod.mk.inj hrest
    refine ⟨r'.step (.request now alloc req res reply), ?_, hcfg'.trans hd, ?_, ?_, ?_⟩
    · rw [List.replicate_succ', runFrom_append, hr']
      rfl
    · exact hhit'.trans_le hlow
    · have hadmits : admits now req r'.data = true := by rw [admits, hreach', hok]; rfl
      rw [step, hadmits, hadm, if_pos rfl, List.replicate_succ', List.append_assoc]
    · have hstart' : (r'.step (.request now alloc req res reply)).data.windowStart = d.windowStart :=
        hwindow'
      rcases hwindow with ⟨hyes, hstart, hzero⟩ | ⟨hno, rfl⟩
      · rw [hstart] at hstart'
        by_cases hnow : now = 0
        · exact Or.inl ⟨Or.inl (hstart'.trans hnow), Or.inr hnow⟩
        · have hfirst : k = 0 := (hstate.resolve_right fun hno => hno.1 hyes).2.resolve_right hnow
          refine Or.inr ⟨?_, hhit'.trans (by rw [hfirst, ← hzero])⟩
          rw [OpenaiData.Restarts, hstart']
          omega
      · obtain ⟨-, hk'⟩ := hstate.resolve_left fun hyes => hno hyes.1
        refine Or.inr ⟨?_, hhit'.trans (by rw [← hk'])⟩
        rw [OpenaiData.Restarts, hstart']
        exact hno

/-- **A forgotten request.** Where a request would start a window while an admitted one is less than 60
seconds old, as many such requests as the limit says exceed it. -/
theorem forgotten_exceeds (hrpm : cfg.rateLimitRpm ≠ 0) {r : ProxyRun} (h : r.Inv cfg) {now : ℤ}
    {alloc : Bool} {req : EdgeHttpReq} {res : EdgeHttpRes} {reply : ApiReply}
    (hclock : r.ClockMoves (.request now alloc req res reply))
    (hforget : ¬r.KeepsWindow (.request now alloc req res reply)) :
    ¬(runFrom step r (List.replicate cfg.rateLimitRpm.toNat (.request now alloc req res reply))).Within
      cfg.rateLimitRpm := by
  rw [KeepsWindow] at hforget
  push Not at hforget
  obtain ⟨hreach, hrestart, t, ht, hyoung⟩ := hforget
  obtain ⟨r', hr', -, -, hadm, -⟩ :=
    runFrom_replicate hrpm h alloc res reply hreach hrestart le_rfl
  rw [hr']
  intro hwithin
  have hle := hwithin t
  have hpast : t ≤ now := (h.past t ht).trans hclock
  have hold : 0 < inWindow t r.admitted :=
    List.countP_pos_iff.mpr ⟨t, ht, decide_eq_true ⟨le_rfl, by omega⟩⟩
  have hnew : inWindow t (List.replicate cfg.rateLimitRpm.toNat now) = cfg.rateLimitRpm.toNat := by
    rw [inWindow, List.countP_replicate, if_pos (decide_eq_true ⟨hpast, hyoung⟩)]
  rw [hadm, inWindow_append, hnew] at hle
  omega

end ProxyRun

/-! ## Two requests a minute -/

/-- The plugin with a limit of two. -/
def twoPerMinute : EdgeOpenaiProxyConfig :=
  { edgeOpenaiProxyConfigDefaults with
    enabled := true
    rateLimitRpm := 2 }

/-- A request for the models at this time. -/
def modelsAt (now : ℤ) : ProxyEvent := .request now true (queryReq 0) emptyRes (.status 0)

/-- Requests that keep to the windows. -/
theorem within_twoPerMinute :
    Always ProxyRun.step (ProxyRun.Within 2) (ProxyRun.start twoPerMinute (bytes "key") 0)
      [modelsAt 100, modelsAt 160] := by
  have hlimit : twoPerMinute.rateLimitRpm ≠ 0 := by decide
  refine ProxyRun.within_of_keepsWindow hlimit (bytes "key") 0 _ ?_
  refine ⟨⟨show (0 : ℤ) ≤ 100 by decide, ?_⟩, ⟨show (100 : ℤ) ≤ 160 by decide, ?_⟩, trivial⟩
  · intro _ _ t ht
    exact absurd ht List.not_mem_nil
  · intro _ _ t ht
    have hadm : ((ProxyRun.start twoPerMinute (bytes "key") 0).step (modelsAt 100)).admitted = [100] := by
      decide +kernel
    rw [hadm] at ht
    rw [List.mem_singleton.mp ht]
    decide

/-- The request at 160 starts a new window, and three are admitted between 159 and 160. -/
theorem not_within_twoPerMinute :
    ¬(runFrom ProxyRun.step (ProxyRun.start twoPerMinute (bytes "key") 0)
      [modelsAt 100, modelsAt 159, modelsAt 160, modelsAt 160]).Within 2 := by
  intro hwithin
  have hadm : (runFrom ProxyRun.step (ProxyRun.start twoPerMinute (bytes "key") 0)
      [modelsAt 100, modelsAt 159, modelsAt 160, modelsAt 160]).admitted = [100, 159, 160, 160] := by
    decide +kernel
  have hle := hwithin 101
  rw [hadm] at hle
  exact absurd hle (by decide)

end Edgehost
