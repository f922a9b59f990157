import ForestCourier.Discovery.Survey

/-!
Requests that stay within a list of hosts. A wire is confined if every session on it was opened, or
refused, by one of the hosts; only opening a session has to be watched, since all other requests are
made on a session. Searching for a host that does what is asked goes through the given hosts only, and
a survey of the database talks over the session that it is given.
-/

namespace ForestCourier

/-- A session is opened with none but the given hosts. -/
def Event.Within (hosts : List String) : Event → Prop
  | .opened session => session.target.host ∈ hosts
  | .refused target _ _ => target.host ∈ hosts
  | _ => True

instance (hosts : List String) (e : Event) : Decidable (e.Within hosts) := by
  cases e <;> unfold Event.Within <;> infer_instance

namespace Wire

variable {σ : Type} {srv : Server σ} {hosts : List String} {w : Wire σ}

def Within (hosts : List String) (w : Wire σ) : Prop := ∀ e ∈ w.trace, e.Within hosts

theorem Within.of_cons {w' : Wire σ} {e : Event} (h : w.Within hosts)
    (htrace : w'.trace = e :: w.trace) (he : e.Within hosts) : w'.Within hosts := by
  intro e' he'
  rw [htrace] at he'
  rcases List.mem_cons.mp he' with rfl | he'
  · exact he
  · exact h e' he'

theorem within_new (state : σ) : (Wire.new state).Within hosts := nofun

namespace Within

theorem note (h : w.Within hosts) (n : Notice) : (w.note n).Within hosts := h

theorem openSession (h : w.Within hosts) (srv : Server σ) {target : Target} (ht : target.host ∈ hosts)
    (transaction : Transaction) : (w.openSession srv target transaction).2.Within hosts := by
  unfold Wire.openSession
  dsimp only
  split
  · exact h.of_cons rfl ht
  · exact h.of_cons rfl ht

theorem insert (h : w.Within hosts) (srv : Server σ) (session : Session) (batch : List Content) :
    (w.insert srv session batch).2.Within hosts := h.of_cons rfl trivial

theorem commit (h : w.Within hosts) (srv : Server σ) (session : Session) :
    (w.commit srv session).2.Within hosts := h.of_cons rfl trivial

theorem rollback (h : w.Within hosts) (srv : Server σ) (session : Session) :
    (w.rollback srv session).Within hosts := h.of_cons rfl trivial

theorem submit (h : w.Within hosts) (srv : Server σ) (session : Session) (query : Query) :
    (w.submit srv session query).2.Within hosts := h.of_cons rfl trivial

theorem range (h : w.Within hosts) (srv : Server σ) (session : Session) (query : RangeQuery) :
    (w.range srv session query).2.Within hosts := h.of_cons rfl trivial

theorem next (h : w.Within hosts) (srv : Server σ) (session : Session) :
    (w.next srv session).2.Within hosts := h.of_cons rfl trivial

theorem close (h : w.Within hosts) (srv : Server σ) (session : Session) : (w.close srv session).Within hosts :=
  h.of_cons rfl trivial

theorem wait (h : w.Within hosts) (srv : Server σ) (pause : Duration) : (w.wait srv pause).Within hosts :=
  h.of_cons rfl trivial

end Within

end Wire

variable {σ : Type} {srv : Server σ} {hosts : List String} {w : Wire σ}

namespace Failover

theorem openAmong_within {all among : List String} (hamong : ∀ host ∈ among, host ∈ hosts)
    (port : UInt16) (transaction : Transaction) (last : Option RequestError) (h : w.Within hosts) :
    (openAmong srv all port transaction among last w).2.Within hosts := by
  induction among generalizing last w with
  | nil => exact h
  | cons host among ih =>
    obtain ⟨hhost, hamong⟩ := List.forall_mem_cons.mp hamong
    have hopened : (w.openSession srv ⟨host, port, none⟩ transaction).2.Within hosts :=
      h.openSession srv hhost transaction
    unfold openAmong
    split
    · next ho => rwa [ho] at hopened
    · next ho =>
      rw [ho] at hopened
      exact ih hamong _ (hopened.note _)

theorem openFirst_within (srv : Server σ) (port : UInt16) (transaction : Transaction) (h : w.Within hosts) :
    (openFirst srv hosts port transaction w).2.Within hosts :=
  openAmong_within (fun _ => id) port transaction none h

theorem queryAmong_within {all among : List String} (hamong : ∀ host ∈ among, host ∈ hosts)
    (port : UInt16) (query : Query) (last : Option RequestError) (h : w.Within hosts) :
    (queryAmong srv all port query among last w).2.Within hosts := by
  induction among generalizing last w with
  | nil => exact h
  | cons host among ih =>
    obtain ⟨hhost, hamong⟩ := List.forall_mem_cons.mp hamong
    have hopened : (w.openSession srv ⟨host, port, none⟩ .auto).2.Within hosts :=
      h.openSession srv hhost .auto
    unfold queryAmong
    split
    · next ho =>
      rw [ho] at hopened
      exact ih hamong _ (hopened.note _)
    · next session w₁ ho =>
      rw [ho] at hopened
      have hasked := hopened.submit srv session query
      split
      · next hs =>
        rw [hs] at hasked
        exact hasked.close srv session
      · next hs =>
        rw [hs] at hasked
        exact ih hamong _ ((hasked.close srv session).note _)

theorem queryFirst_within (srv : Server σ) (port : UInt16) (query : Query) (h : w.Within hosts) :
    (queryFirst srv hosts port query w).2.Within hosts :=
  queryAmong_within (fun _ => id) port query none h

end Failover

namespace Discovery

def Talk.Keeps {α : Type} (R : Wire σ → Prop) (answer : α → Prop) (t : Talk σ α) : Prop :=
  ∀ w : Wire σ, (R w → R (t w).2) ∧ ∀ a, (t w).1 = .ok a → answer a

namespace Talk

variable {α β : Type} {R : Wire σ → Prop} {Q : α → Prop} {Q' : β → Prop}

theorem keeps_pure {a : α} (ha : Q a) : (pure a : Talk σ α).Keeps R Q :=
  fun _ => ⟨id, fun a h => by cases h; exact ha⟩

theorem Keeps.bind {t : Talk σ α} {f : α → Talk σ β} (h : t.Keeps R Q)
    (hf : ∀ a, Q a → (f a).Keeps R Q') : (t >>= f).Keeps R Q' := by
  intro w
  obtain ⟨hwire, hanswer⟩ := h w
  change (R w → R (ExceptT.bindCont f (t w).1 (t w).2).2) ∧
    ∀ b, (ExceptT.bindCont f (t w).1 (t w).2).1 = .ok b → Q' b
  match hr : t w with
  | (.ok a, w₁) =>
    rw [hr] at hwire hanswer
    obtain ⟨hwire', hanswer'⟩ := hf a (hanswer a rfl) w₁
    exact ⟨hwire' ∘ hwire, hanswer'⟩
  | (.error e, w₁) =>
    rw [hr] at hwire
    exact ⟨hwire, nofun⟩

end Talk

/-- What holds of a wire lasts while questions are asked on a session and notices given. -/
structure Lasts (srv : Server σ) (session : Session) (R : Wire σ → Prop) : Prop where
  submit : ∀ w query, R w → R (w.submit srv session query).2
  note : ∀ w n, R w → R (w.note n)

theorem lasts_within (srv : Server σ) (session : Session) : Lasts srv session (Wire.Within hosts) where
  submit _ query h := h.submit srv session query
  note _ n h := h.note n

namespace Lasts

variable {session : Session} {R : Wire σ → Prop}

theorem keeps_ask (h : Lasts srv session R) (query : Query) : (ask srv session query).Keeps R fun _ => True := by
  refine fun w => ⟨fun hw => ?_, fun _ _ => trivial⟩
  have hasked := h.submit w query hw
  unfold ask
  split
  · next hs => rwa [hs] at hasked
  · next hs => rwa [hs] at hasked

theorem keeps_note (h : Lasts srv session R) (n : Notice) :
    (Discovery.note n : Talk σ Unit).Keeps R fun _ => True :=
  fun w => ⟨h.note w n, fun _ _ => trivial⟩

theorem keeps_decoded {α : Type} (r : Except ProtocolError α) : (decoded r : Talk σ α).Keeps R fun _ => True :=
  fun _ => ⟨id, fun _ _ => trivial⟩

theorem keeps_probe (h : Lasts srv session R) : (probe srv session).Keeps R fun _ => True :=
  (h.keeps_ask _).bind fun items _ => keeps_decoded (readCapabilities items)

theorem keeps_findPolicy (h : Lasts srv session R) (config : Config.Output) (caps : Capabilities) :
    (findPolicy srv session config caps).Keeps R fun _ => True := by
  have hlegacy : (pure Placement.Kind.legacy : Talk σ _).Keeps R fun _ => True := Talk.keeps_pure trivial
  unfold findPolicy
  split
  · refine (h.keeps_ask _).bind fun items _ => ?_
    exact (keeps_decoded (readPolicy items)).bind fun _ _ => Talk.keeps_pure trivial
  · split
    · split
      · exact (h.keeps_note _).bind fun _ _ => hlegacy
      · exact hlegacy
    · exact hlegacy

theorem keeps_findForests (h : Lasts srv session R) (caps : Capabilities) :
    (findForests srv session caps).Keeps R fun _ => True := by
  have hreplicas (forests : List Forest) : (do
      let query := if caps.replicaHosts then Queries.replicaHosts else Queries.legacyReplica
      let groups ← decoded (readReplicaGroups (← ask srv session ⟨query, []⟩))
      decoded (attachReplicas forests groups) : Talk σ (List Forest)).Keeps R fun _ => True := by
    refine (h.keeps_ask _).bind fun items _ => ?_
    exact (keeps_decoded _).bind fun groups _ => keeps_decoded _
  unfold findForests
  dsimp only
  split
  · refine (h.keeps_ask _).bind fun items _ => ?_
    exact (keeps_decoded _).bind fun forests _ => hreplicas forests
  · refine (h.keeps_ask _).bind fun items _ => ?_
    exact (keeps_decoded _).bind fun forests _ => hreplicas forests

theorem keeps_resolveFastLoad (h : Lasts srv session R) (config : Config.Output) (directories : DirectoryCreation) :
    (resolveFastLoad config directories : Talk σ Bool).Keeps R (· = allowsFastLoad config directories) := by
  have hanswer : (pure (allowsFastLoad config directories) : Talk σ Bool).Keeps R
      (· = allowsFastLoad config directories) := Talk.keeps_pure rfl
  unfold resolveFastLoad
  split
  · split
    · exact (h.keeps_note _).bind fun _ _ => hanswer
    · split
      · exact (h.keeps_note _).bind fun _ _ => hanswer
      · exact hanswer
  · exact hanswer

theorem keeps_survey (h : Lasts srv session R) (config : Config.Output) :
    (survey srv session config).Keeps R
      fun layout => layout.fastLoad = allowsFastLoad config layout.directoryCreation := by
  refine h.keeps_probe.bind fun caps _ => ?_
  refine (h.keeps_findPolicy config caps).bind fun policy _ => ?_
  refine (h.keeps_findForests caps).bind fun forests _ => ?_
  refine (h.keeps_ask _).bind fun items _ => ?_
  refine (keeps_decoded _).bind fun directories _ => ?_
  exact (h.keeps_resolveFastLoad config directories).bind fun fastLoad hfast => Talk.keeps_pure hfast

end Lasts

theorem discover_within (srv : Server σ) (config : Config.Output) (h : w.Within config.hosts) :
    (discover srv config w).2.Within config.hosts := by
  have hopened := Failover.openFirst_within srv config.port .auto h
  unfold discover
  split
  · next ho => rwa [ho] at hopened
  · next session w₁ ho =>
    rw [ho] at hopened
    exact (((lasts_within srv session).keeps_survey config w₁).1 hopened).close srv session

theorem discover_fastLoad {config : Config.Output} {layout : Layout}
    (h : (discover srv config w).1 = .ok layout) :
    layout.fastLoad = allowsFastLoad config layout.directoryCreation := by
  unfold discover at h
  split at h
  · cases h
  · next session w₁ _ =>
    have hlasts : Lasts srv session (Wire.Within []) := lasts_within srv session
    exact (hlasts.keeps_survey config w₁).2 layout h

theorem discover_restricted {config : Config.Output} (hrestrict : config.restrictHosts = true)
    {layout : Layout} (h : (discover srv config w).1 = .ok layout) : layout.fastLoad = false := by
  simp [discover_fastLoad h, allowsFastLoad, hrestrict]

end Discovery

end ForestCourier
