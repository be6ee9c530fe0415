import Armadito.OnAccess.Protocol

/-!
# OnAccess.Actions

What the functions of the monitor record about the event they are called
for: one lemma for each function, and the frame facts about the other
events.
-/

namespace Armadito.OnAccess

open Armadito.Core

variable {f : FanotifyMonitor} {m m' : MonitorState} {e : FanotifyEventMetadata}

/-- The actions concern no event but `e`. -/
def OnlyAbout (e : FanotifyEventMetadata) (acts : List Action) : Prop :=
  ∀ a ∈ acts, ∀ id, id ≠ e.id → a.target ≠ some (.event id)

theorem history_of_onlyAbout {acts : List Action} (h : OnlyAbout e acts) {id : Nat}
    (hne : id ≠ e.id) : history id acts = [] := by
  refine List.filter_eq_nil_iff.mpr fun a ha => ?_
  simpa using h a ha id hne

/-- A step that records actions about `e` and may free its number. -/
theorem SameElsewhere.of_log {acts : List Action} (hacts : OnlyAbout e acts)
    (hlog : m'.log = m.log ++ acts)
    (hfds : m'.fds = m.fds ∨ m'.fds = Function.update m.fds e.fd none) :
    SameElsewhere m m' e where
  fds := by
    intro fd hne
    rcases hfds with h | h
    · rw [h]
    · rw [h, Function.update_of_ne hne]
  history := by
    intro id hne
    rw [hlog, history_append, history_of_onlyAbout hacts hne, List.append_nil]
  own := by
    rcases hfds with h | h
    · exact .inl (by rw [h])
    · exact .inr (by rw [h, Function.update_self])

theorem responseWrite_eq (hfd : m.fds e.fd = some (.event e.id)) (r : FanResponse) :
    responseWrite m e.fd r =
      { m with
        fds := Function.update m.fds e.fd none
        log := m.log ++
          [.responseWrite (some (.event e.id)) r, .close (some (.event e.id))] } := by
  simp [responseWrite, closeFd, hfd]

/-- Given a descriptor, the context keeps it. -/
theorem a6oScanContextGet_fd {sys : FileCalls} {ctx ctx' : A6oScanContext} {fd : Int}
    {path : Option CString} {conf conf' : A6oScanConf} {report report' : Option A6oReport}
    (hfd : 0 ≤ fd)
    (h : a6oScanContextGet sys ctx fd path conf report = .ok (ctx', conf', report')) :
    ctx'.fd = fd := by
  have hneg : ¬ fd < 0 := by omega
  have hcfd : contextFd sys fd path = fd := if_neg hneg
  rw [a6oScanContextGet, if_neg (fun h => hneg h.1)] at h
  split at h
  · cases h
    rfl
  · rw [if_neg (by rw [hcfd]; exact hneg)] at h
    rcases contextFindModules_cases h with ⟨rfl, -⟩ | ⟨mimeType, modules, rfl, -⟩
    · exact hcfd
    · exact hcfd

/-- A permission event is allowed and its descriptor closed, or its file is
queued. -/
theorem fanotifyPermEventProcess_cases {sys : EventCalls} {path : Option CString}
    (h0 : 0 ≤ e.fd) (hfd : m.fds e.fd = some (.event e.id))
    (h : fanotifyPermEventProcess sys m e path = .ok m') :
    (∃ scanConf, m' = { m with
        scanConf
        fds := Function.update m.fds e.fd none
        log := m.log ++ [.responseWrite (some (.event e.id)) .allow,
          .close (some (.event e.id))] }) ∨
    ∃ scanConf ctx, ctx.fd = e.fd ∧ m' = { m with
        scanConf
        threadPool := m.threadPool ++ [⟨ctx, none⟩]
        log := m.log ++ [.threadPoolPush (some (.event e.id))] } := by
  rw [fanotifyPermEventProcess] at h
  split at h
  · cases h
    refine .inl ⟨m.scanConf, ?_⟩
    rw [watchdogRemove, if_pos rfl, responseWrite_eq hfd]
  · obtain ⟨⟨ctx, scanConf, report⟩, hget, h⟩ := bind_eq_ok.mp h
    have hctx := a6oScanContextGet_fd h0 hget
    by_cases hscan : ctx.status = .mustScan
    · simp only [hscan, ne_eq, not_true_eq_false, if_false] at h
      cases h
      refine .inr ⟨scanConf, ctx, hctx, ?_⟩
      simp [threadPoolPush, hctx, hfd]
    · simp only [hscan, ne_eq, not_false_eq_true, if_true] at h
      cases h
      refine .inl ⟨scanConf, ?_⟩
      -- the context given to `destroy` holds no descriptor any more
      rw [a6oScanContextDestroy, if_pos (show (-1 : Int) < 0 by decide),
        watchdogRemove, if_pos rfl]
      exact responseWrite_eq (m := { m with scanConf }) hfd .allow

/-- A notification whose file passes the `fstat` test is closed, or its file
is queued. -/
theorem fanotifyNotifyEventProcess_cases {sys : EventCalls} {path : Option CString}
    (h0 : 0 ≤ e.fd) (hfd : m.fds e.fd = some (.event e.id))
    (h : fanotifyNotifyEventProcess sys m e path = .ok m') :
    (statCheck sys e.fd = true ∧ m' = m) ∨
    (∃ scanConf, m' = { m with
        scanConf
        fds := Function.update m.fds e.fd none
        log := m.log ++ [.close (some (.event e.id))] }) ∨
    ∃ scanConf ctx, ctx.fd = e.fd ∧ m' = { m with
        scanConf
        threadPool := m.threadPool ++ [⟨ctx, none⟩]
        log := m.log ++ [.threadPoolPush (some (.event e.id))] } := by
  rw [fanotifyNotifyEventProcess] at h
  split at h
  · next hstat =>
    cases h
    exact .inl ⟨hstat, rfl⟩
  · obtain ⟨⟨ctx, scanConf, report⟩, hget, h⟩ := bind_eq_ok.mp h
    have hctx := a6oScanContextGet_fd h0 hget
    by_cases hscan : ctx.status = .mustScan
    · simp only [hscan, ne_eq, not_true_eq_false, if_false] at h
      cases h
      refine .inr (.inr ⟨scanConf, ctx, hctx, ?_⟩)
      simp [threadPoolPush, hctx, hfd]
    · simp only [hscan, ne_eq, not_false_eq_true, if_true] at h
      cases h
      refine .inr (.inl ⟨scanConf, ?_⟩)
      rw [a6oScanContextDestroy, if_neg (by rw [hctx]; omega), hctx]
      simp [closeFd, hfd]

/-- What the second pass does with an untouched event that is not the
daemon's own: leave it (no answer is due), release it, or queue it. -/
theorem fanotifyPass2Event_cases {sys : EventCalls} (hpid : e.pid ≠ f.myPid)
    (h0 : 0 ≤ e.fd) (hfd : m.fds e.fd = some (.event e.id))
    (h : fanotifyPass2Event f sys m e = .ok m') :
    (¬ e.isPerm ∧ m' = m) ∨
    (∃ scanConf acts, m' = { m with
        scanConf
        fds := Function.update m.fds e.fd none
        log := m.log ++ acts } ∧
      (acts = [.responseWrite (some (.event e.id)) .allow, .close (some (.event e.id))] ∨
        ¬ e.isPerm ∧ acts = [.close (some (.event e.id))])) ∨
    ∃ scanConf ctx, ctx.fd = e.fd ∧ m' = { m with
        scanConf
        threadPool := m.threadPool ++ [⟨ctx, none⟩]
        log := m.log ++ [.threadPoolPush (some (.event e.id))] } := by
  rw [fanotifyPass2Event, if_neg hpid] at h
  by_cases hperm : e.isPerm
  · rw [if_pos hperm] at h
    rcases fanotifyPermEventProcess_cases h0 hfd h with ⟨scanConf, rfl⟩ | hqueued
    · exact .inr (.inl ⟨scanConf, _, rfl, .inl rfl⟩)
    · exact .inr (.inr hqueued)
  · rw [if_neg hperm] at h
    split at h
    · rcases fanotifyNotifyEventProcess_cases h0 hfd h with ⟨-, rfl⟩ | ⟨scanConf, rfl⟩ | hqueued
      · exact .inl ⟨hperm, rfl⟩
      · exact .inr (.inl ⟨scanConf, _, rfl, .inr ⟨hperm, rfl⟩⟩)
      · exact .inr (.inr hqueued)
    · cases h
      exact .inl ⟨hperm, rfl⟩

/-- The detection event at the end is about no descriptor. -/
theorem fireIfDetected_eq (m : MonitorState) (status : A6oFileStatus)
    (report : Option A6oReport) :
    ∃ events, (∀ a ∈ events, a.target = none) ∧
      fireIfDetected m status report = { m with log := m.log ++ events } := by
  unfold fireIfDetected
  split
  · exact ⟨[], by simp, by simp⟩
  · split
    · exact ⟨_, by simp [Action.target], rfl⟩
    · exact ⟨[], by simp, by simp⟩

/-- The answer of a scan thread, with the permission mode enabled. -/
theorem scanFileThreadAnswer_eq (hf : f.enablePermission = true)
    (hfd : m.fds e.fd = some (.event e.id)) {ctx : A6oScanContext} (hctx : ctx.fd = e.fd)
    (status : A6oFileStatus) (report : Option A6oReport) :
    ∃ events, (∀ a ∈ events, Action.target a = none) ∧
      scanFileThreadAnswer f m ctx status report = { m with
        fds := Function.update m.fds e.fd none
        log := m.log ++ ([.responseWrite (some (.event e.id)) (fanResponse status),
          .close (some (.event e.id))] ++ events) } := by
  obtain ⟨events, htarget, heq⟩ := fireIfDetected_eq
    (responseWrite m e.fd (fanResponse status)) status report
  refine ⟨events, htarget, ?_⟩
  rw [responseWrite_eq hfd] at heq
  rw [scanFileThreadAnswer, if_pos hf]
  simp only [watchdogRemove, if_true, hctx, a6oScanContextDestroy]
  rw [if_pos (show (-1 : Int) < 0 by decide), responseWrite_eq hfd, heq, List.append_assoc]

/-- Actions on an event are about no other. -/
theorem onlyAbout_self {acts : List Action}
    (hacts : ∀ a ∈ acts, a.target = some (.event e.id)) : OnlyAbout e acts := by
  intro a ha id hne htarget
  rw [hacts a ha] at htarget
  injection htarget with htarget
  injection htarget with htarget
  exact hne htarget.symm

theorem history_self {acts : List Action}
    (hacts : ∀ a ∈ acts, a.target = some (.event e.id)) : history e.id acts = acts :=
  List.filter_eq_self.mpr fun a ha => by simpa using hacts a ha

/-- Events that are fired have no descriptor. -/
theorem onlyAbout_of_target {acts events : List Action}
    (hacts : ∀ a ∈ acts, a.target = some (.event e.id))
    (hevents : ∀ a ∈ events, a.target = none) : OnlyAbout e (acts ++ events) := by
  intro a ha id hne htarget
  rcases List.mem_append.mp ha with ha | ha
  · exact onlyAbout_self hacts a ha id hne htarget
  · rw [hevents a ha] at htarget
    cases htarget

theorem history_own {acts events : List Action}
    (hacts : ∀ a ∈ acts, a.target = some (.event e.id))
    (hevents : ∀ a ∈ events, a.target = none) : history e.id (acts ++ events) = acts := by
  have hnone : history e.id events = [] :=
    List.filter_eq_nil_iff.mpr fun a ha => by simp [hevents a ha]
  rw [history_append, history_self hacts, hnone, List.append_nil]

end Armadito.OnAccess
