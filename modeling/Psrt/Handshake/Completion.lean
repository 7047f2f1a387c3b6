import Psrt.Handshake.Script

/-! A client and its two handlers, taking turns: the handshake can always be completed by a client whose
credentials pass. -/

namespace Psrt.Handshake
open Wire Interaction

variable {m : SubMap} {cfg : Config} {crypto : Crypto} {sha256 : Token → Digest} {site : Site}

structure Stage (s : Network m cfg crypto sha256 site) (n : Nat) (hc : List Client.ConnectEvent)
    (p : Client.ConnectProg Unit) (hk : Client.Link → List HandlerEvent)
    (ps : Client.Link → HandlerProg Bool) (w : World m) : Prop where
  reachable : Reachable s
  world : s.world = w
  client : s.history (.client n) = hc
  clientRest : s.rest (.client n) = p
  handler : ∀ l, s.history (.handler (site.accept n l)) = hk l
  handlerRest : ∀ l, s.rest (.handler (site.accept n l)) = ps l
  clientSound : ∀ l, ¬ (Client.port l).Broken hc
  handlerSound : ∀ l, ¬ handlerPort.Broken (hk l)

section
variable {s : Network m cfg crypto sha256 site} {n : Nat} {hc : List Client.ConnectEvent}
  {p : Client.ConnectProg Unit} {hk : Client.Link → List HandlerEvent}
  {ps : Client.Link → HandlerProg Bool} {w : World m}

theorem Stage.answer (hs : Stage s n hc p hk ps w) (l : Client.Link) :
    (Client.port l).taken hc ++ (s.streams ⟨n, l, .answer⟩).unread =
      handlerPort.offered (hk l) := by
  have hunread : (Client.port l).taken (s.history (.client n)) ++
      (s.streams ⟨n, l, .answer⟩).unread =
        handlerPort.offered (s.history (.handler (site.accept n l))) := by
    refine hs.reachable.unread failStop (d := ⟨n, l, .answer⟩) ?_ ?_
    · change ¬ handlerPort.Broken (s.history (.handler (site.accept n l)))
      rw [hs.handler]
      exact hs.handlerSound l
    · change ¬ (Client.port l).Broken (s.history (.client n))
      rw [hs.client]
      exact hs.clientSound l
  rwa [hs.client, hs.handler] at hunread

theorem Stage.request (hs : Stage s n hc p hk ps w) (l : Client.Link) :
    handlerPort.taken (hk l) ++ (s.streams ⟨n, l, .request⟩).unread =
      (Client.port l).offered hc := by
  have hunread : handlerPort.taken (s.history (.handler (site.accept n l))) ++
      (s.streams ⟨n, l, .request⟩).unread = (Client.port l).offered (s.history (.client n)) := by
    refine hs.reachable.unread failStop (d := ⟨n, l, .request⟩) ?_ ?_
    · change ¬ (Client.port l).Broken (s.history (.client n))
      rw [hs.client]
      exact hs.clientSound l
    · change ¬ handlerPort.Broken (s.history (.handler (site.accept n l)))
      rw [hs.handler]
      exact hs.handlerSound l
  rwa [hs.client, hs.handler] at hunread

theorem Stage.client_turn (hs : Stage s n hc p hk ps w) {h : List Client.ConnectEvent}
    {q : Client.ConnectProg Unit} (hrun : Prog.Run p h q)
    (hfine : ∀ e ∈ h, Fine e)
    (hread : ∀ l, (Client.port l).taken (hc ++ h) <+: handlerPort.offered (hk l)) :
    ∃ s', Net.Later (wiring site) World.Env s s' ∧ Stage s' n (hc ++ h) q hk ps w := by
  have hexec : System.Execs (node (m := m) cfg crypto sha256 site (.client n)).Exec w h w := by
    clear hrun hread
    induction h with
    | nil => exact .nil w
    | cons e h ih =>
      obtain ⟨he, hrest⟩ := List.forall_mem_cons.mp hfine
      exact .cons ⟨rfl, he.exact⟩ (ih hrest)
  have hall : ∀ d, ∀ e ∈ h,
      ¬ ((node (m := m) cfg crypto sha256 site (.client n)).port d).Broke e.op e.resp :=
    fun d e he => (hfine e he).sound d.link
  rw [← hs.world] at hexec
  obtain ⟨s', hlater, hworld, hrest, hsolo⟩ := Net.later_solo (wiring site) World.Env (Id.client n)
    hrun hexec hs.clientRest hall (by
      rintro ⟨n', l, dir⟩ hd
      cases dir with
      | request => cases hd
      | answer =>
        obtain rfl := Id.client.inj hd
        have hbefore := hread l
        rw [← hs.answer l, Port.taken_append, List.prefix_append_right_inj] at hbefore
        exact hbefore)
  have hothers : ∀ k, s'.rest (.handler k) = s.rest (.handler k) ∧
      s'.history (.handler k) = s.history (.handler k) := fun k => hsolo.others (.handler k) nofun
  refine ⟨s', hlater, hs.reachable.later hlater, hworld.trans hs.world, ?_, hrest, fun l => ?_,
    fun l => ?_, fun l => ?_, hs.handlerSound⟩
  · rw [hsolo.history, hs.client]
  · rw [(hothers _).2, hs.handler]
  · rw [(hothers _).1, hs.handlerRest]
  · rintro ⟨e, he, hbroke⟩
    rcases List.mem_append.mp he with he | he
    · exact hs.clientSound l ⟨e, he, hbroke⟩
    · exact (hfine e he).sound l hbroke

theorem Stage.client_reads (hs : Stage s n hc p hk ps w) (l : Client.Link)
    {h : List Client.ConnectEvent} {q : Client.ConnectProg Unit} (hrun : Prog.Run p h q)
    (hfine : ∀ e ∈ h, Fine e) (hother : ∀ l', l ≠ l' → (Client.port l').taken h = [])
    (hread : (Client.port l).taken (hc ++ h) <+: handlerPort.offered (hk l)) :
    ∃ s', Net.Later (wiring site) World.Env s s' ∧ Stage s' n (hc ++ h) q hk ps w := by
  refine hs.client_turn hrun hfine fun l' => ?_
  by_cases hl : l = l'
  · subst hl
    exact hread
  · rw [Port.taken_append, hother l' hl, List.append_nil]
    exact ⟨_, hs.answer l'⟩

theorem Stage.handler_turn (hs : Stage s n hc p hk ps w) (l : Client.Link) {h : List HandlerEvent}
    {q : HandlerProg Bool} {w' : World m} (hrun : Prog.Run (ps l) h q)
    (hexec : System.Execs (World.Exec cfg crypto sha256) w h w')
    (hsound : ∀ e ∈ h, ¬ handlerPort.Broke e.op e.resp)
    (hread : handlerPort.taken (hk l ++ h) <+: (Client.port l).offered hc) :
    ∃ s', Net.Later (wiring site) World.Env s s' ∧ Stage s' n hc p
      (Function.update hk l (hk l ++ h)) (Function.update ps l q) w' := by
  rw [← hs.world] at hexec
  obtain ⟨s', hlater, hworld, hrest, hsolo⟩ := Net.later_solo (wiring site) World.Env
    (Id.handler (site.accept n l)) hrun hexec (hs.handlerRest l) (fun _ => hsound) (by
      rintro ⟨n', l', dir⟩ hd
      cases dir with
      | answer => cases hd
      | request =>
        obtain ⟨rfl, rfl⟩ := site.accept_inj _ _ _ _ (Id.handler.inj hd)
        rw [← hs.request l', Port.taken_append, List.prefix_append_right_inj] at hread
        exact hread)
  have hother : ∀ l', l' ≠ l → Id.handler (site.accept n l') ≠ Id.handler (site.accept n l) :=
    fun l' hl h => hl (site.accept_inj _ _ _ _ (Id.handler.inj h)).2
  have hclient : s'.rest (.client n) = s.rest (.client n) ∧
      s'.history (.client n) = s.history (.client n) := hsolo.others (.client n) nofun
  refine ⟨s', hlater, hs.reachable.later hlater, hworld, ?_, ?_, fun l' => ?_, fun l' => ?_,
    hs.clientSound, fun l' => ?_⟩
  · rw [hclient.2, hs.client]
  · rw [hclient.1, hs.clientRest]
  · by_cases hl : l' = l
    · subst hl
      rw [Function.update_self, hsolo.history, hs.handler]
    · rw [Function.update_of_ne hl, (hsolo.others _ (hother l' hl)).2, hs.handler]
  · by_cases hl : l' = l
    · subst hl
      rw [Function.update_self, hrest]
    · rw [Function.update_of_ne hl, (hsolo.others _ (hother l' hl)).1, hs.handlerRest]
  · by_cases hl : l' = l
    · subst hl
      rw [Function.update_self]
      rintro ⟨e, he, hbroke⟩
      rcases List.mem_append.mp he with he | he
      · exact hs.handlerSound l' ⟨e, he, hbroke⟩
      · exact hsound e he hbroke
    · rw [Function.update_of_ne hl]
      exact hs.handlerSound l'

theorem Stage.greeting_turn (hs : Stage s n hc p hk ps w) (l : Client.Link) {config : Client.Config}
    {q : HandlerProg Bool} (hrun : Prog.Run (ps l) ((replying config l).map asHandler.event) q)
    (hfirst : hk l = []) (hgreeting : (Client.port l).offered hc = Client.greeting config l) :
    ∃ s', Net.Later (wiring site) World.Env s s' ∧ Stage s' n hc p
      (Function.update hk l ((replying config l).map asHandler.event)) (Function.update ps l q) w := by
  have hturn := hs.handler_turn l hrun (execs_replying config l) (sound_replying l)
  rw [hfirst, List.nil_append, taken_replying, hgreeting] at hturn
  exact hturn List.prefix_rfl

end

/-- Client `n` has not begun to connect, and the server will let it in: over TLS or a plain stream, with
credentials that pass, or over a UNIX socket; and `token` is not taken. -/
structure Welcome (s : Network m cfg crypto sha256 site) (v : m.View) (n : Nat) (token : Token) :
    Prop where
  client : s.history (.client n) = []
  handler : ∀ l, s.history (.handler (site.accept n l)) = []
  peers : ∀ l, Accepts (site.parties n).config (site.peers (site.accept n l))
  acceptable : Acceptable (site.parties n).config
  entitled : Client.isUnixSocket (site.parties n).config.path = false →
    ∃ acl, Entitled cfg crypto s.world.server (site.parties n).config acl
  token : ∀ c ∈ s.world.server.db.clients v, c.digest ≠ sha256 token

section
variable {s : Network m cfg crypto sha256 site} {v : m.View} {n : Nat} {token : Token}

theorem Welcome.stage (hr : Reachable s) (hw : Welcome s v n token) :
    Stage s n [] (site.parties n).body (fun _ => [])
      (fun l => (site.peers (site.accept n l)).connection cfg) s.world := by
  have hnothing : ∀ {i}, s.history i = [] → s.rest i = (node cfg crypto sha256 site i).body := by
    intro i hi
    have hrun := hr.run i
    rw [hi] at hrun
    exact hrun.of_nil
  refine ⟨hr, rfl, hw.client, hnothing hw.client, hw.handler, fun l => hnothing (hw.handler l),
    fun l => ?_, fun l => ?_⟩
  · rintro ⟨e, he, _⟩
    cases he
  · rintro ⟨e, he, _⟩
    cases he

theorem Welcome.acl (hw : Welcome s v n token) :
    ∃ acl, Client.isUnixSocket (site.parties n).config.path = false →
      Entitled cfg crypto s.world.server (site.parties n).config acl := by
  by_cases htcp : Client.isUnixSocket (site.parties n).config.path = false
  · obtain ⟨acl, hacl⟩ := hw.entitled htcp
    exact ⟨acl, fun _ => hacl⟩
  · exact ⟨Acl.newFull, fun h => absurd h htcp⟩

theorem Welcome.control_turns (hl : m.RegistryLaws v) (hr : Reachable s) (hw : Welcome s v n token)
    {p : Bytes → Client.ConnectProg Unit}
    (hbody : (site.parties n).body = ((Client.addCa (site.parties n).config).bind fun _ =>
      Client.connectControl (site.parties n).config (site.parties n).turns).bind p)
    {h : List Client.ConnectEvent} {q : Client.ConnectProg Unit} (hrun : Prog.Run (p token.bytes) h q)
    (hfine : ∀ e ∈ h, Fine e) (htaken : ∀ l, (Client.port l).taken h = []) :
    ∃ s' addr hk ps, Net.Later (wiring site) World.Env s s' ∧
      Stage s' n (arriving (site.parties n).config ++ (hearing .control ++
        loggingIn (site.parties n).config token.bytes) ++ h) q hk ps
        (withClient s.world (newClient sha256 s.world (site.parties n).config.user addr token)) ∧
      hk .data = [] ∧ ps .data = (site.peers (site.accept n .data)).connection cfg := by
  obtain ⟨acl, hentitled⟩ := hw.acl
  obtain ⟨addr, hconnection⟩ := (hw.peers .control).run_connection_control hw.acceptable acl
    fun htcp => (hentitled htcp).anonymous
  generalize (site.parties n).config = config at hbody hentitled hconnection ⊢
  generalize hclient : newClient sha256 s.world config.user addr token = client
  have htoken : client.token = token := by rw [← hclient, newClient]
  -- what the client does up to `h`, cut where it waits for the server
  have hall := (run_connectControl config (site.parties n).turns token.bytes).bind hrun
  rw [← hbody, List.append_assoc, show hearing .control ++ loggingIn config token.bytes ++ h =
      (hearing .control ++ [⟨.write .control (Client.authBuf config), .ok ()⟩]) ++
        (⟨.read .control 32, .ok token.bytes⟩ :: h) by simp [loggingIn]] at hall
  obtain ⟨p₁, hrun₁, hall⟩ := hall.split
  obtain ⟨p₂, hrun₂, hrun₃⟩ := hall.split
  obtain ⟨q₂, hq⟩ := hconnection client
  obtain ⟨q₁, hq₁, hq₂⟩ := hq.split
  have hlogin := execs_loginEvents hl cfg crypto addr hentitled hw.token
  rw [hclient] at hlogin
  obtain ⟨s₁, hs₁, h₁⟩ := (hw.stage hr).client_reads .control hrun₁ fine_arriving
    (fun l _ => taken_arriving l) (by
      rw [List.nil_append, taken_arriving]
      exact List.nil_prefix)
  obtain ⟨s₂, hs₂, h₂⟩ := h₁.greeting_turn .control hq₁ rfl (by
    rw [List.nil_append, offered_arriving, if_pos rfl])
  have hasking : ∀ l, (Client.port l).taken [⟨.write .control (Client.authBuf config), .ok ()⟩] = [] :=
    fun _ => rfl
  obtain ⟨s₃, hs₃, h₃⟩ := h₂.client_reads .control hrun₂
    (List.forall_mem_append.mpr ⟨fine_hearing .control, List.forall_mem_singleton.mpr
      ⟨trivial, fun _ => id⟩⟩)
    (fun l hl => by rw [Port.taken_append, taken_hearing, if_neg hl, hasking, List.append_nil]) (by
    rw [Function.update_self, offered_replying, List.nil_append, Port.taken_append, Port.taken_append,
      taken_arriving, taken_hearing, if_pos rfl, hasking, List.append_nil]
    exact List.prefix_rfl)
  have hauth : (Client.port .control).offered [⟨.write .control (Client.authBuf config), .ok ()⟩] =
      Client.authBuf config := List.append_nil _
  obtain ⟨s₄, hs₄, h₄⟩ := h₃.handler_turn .control (by rw [Function.update_self]; exact hq₂) hlogin
    (sound_loginEvents acl client) (by
    simp only [Function.update_self, List.nil_append, Port.taken_append, Port.offered_append,
      taken_replying, taken_loginEvents, offered_arriving, offered_hearing, hauth, if_true]
    exact List.prefix_rfl)
  have htold : ∀ l, (Client.port l).taken (⟨.read .control 32, .ok token.bytes⟩ :: h) =
      if .control = l then token.bytes else [] := by
    intro l
    change (if .control = l then token.bytes else []) ++ (Client.port l).taken h = _
    rw [htaken, List.append_nil]
  obtain ⟨s₅, hs₅, h₅⟩ := h₄.client_reads .control hrun₃
    (List.forall_mem_cons.mpr ⟨fine_read token.length_eq, hfine⟩)
    (fun l hl => by rw [htold, if_neg hl]) (by
    simp only [Port.taken_append, taken_arriving, taken_hearing, hasking, htold, Function.update_self,
      List.nil_append, List.append_nil, if_true, Port.offered_append, offered_replying,
      offered_loginEvents, htoken]
    exact List.prefix_rfl)
  have hevents : [] ++ arriving config ++ (hearing .control ++
      [⟨.write .control (Client.authBuf config), .ok ()⟩]) ++
        (⟨.read .control 32, .ok token.bytes⟩ :: h) =
      arriving config ++ (hearing .control ++ loggingIn config token.bytes) ++ h := by
    simp [loggingIn]
  rw [hevents] at h₅
  subst hclient
  exact ⟨s₅, addr, _, _, ((hs₁.trans hs₂).trans (hs₃.trans hs₄)).trans hs₅, h₅, rfl, rfl⟩

theorem Stage.data_turns {hc : List Client.ConnectEvent} {p q : Client.ConnectProg Unit}
    {hk : Client.Link → List HandlerEvent} {ps : Client.Link → HandlerProg Bool} {w : World m}
    {config : Client.Config} {client : ServerClient}
    (hs : Stage s n (hc ++ opening config .data) p hk ps w)
    (hoffered : (Client.port .data).offered hc = []) (htakenData : (Client.port .data).taken hc = [])
    (hdata : hk .data = []) (hps : ps .data = (site.peers (site.accept n .data)).connection cfg)
    (hpeer : Accepts config (site.peers (site.accept n .data)))
    (hstored : w.server.db.clientsByToken client.token = some client)
    (hempty : w.dataChannel client = none)
    (hrun : Prog.Run p (hearing .data ++ attaching config client.token.bytes) q) :
    ∃ s' w' hk' ps', Net.Later (wiring site) World.Env s s' ∧
      Stage s' n (hc ++ opening config .data ++ (hearing .data ++
        attaching config client.token.bytes)) q hk' ps' w' := by
  generalize htimeout : UInt8.ofNat (Client.timeoutSecs config) = timeout
  have hattaching : attaching config client.token.bytes = [⟨.write .data client.token.bytes, .ok ()⟩,
      ⟨.write .data [timeout], .ok ()⟩, ⟨.read .data 1, .ok [responseOk]⟩] := by
    rw [attaching, htimeout]
  obtain ⟨q₂, hq⟩ := hpeer.run_connection_data cfg client.token timeout w.nextChannel client
  obtain ⟨q₁, hq₁, hq₂⟩ := hq.split
  obtain ⟨w', hlaunch⟩ := execs_launchEvents cfg crypto timeout hstored hempty
  rw [hattaching, show hearing .data ++ [⟨.write .data client.token.bytes, .ok ()⟩,
      ⟨.write .data [timeout], .ok ()⟩, ⟨.read .data 1, .ok [responseOk]⟩] =
    (hearing .data ++ [⟨.write .data client.token.bytes, .ok ()⟩, ⟨.write .data [timeout], .ok ()⟩]) ++
      [⟨.read .data 1, .ok [responseOk]⟩] by simp] at hrun
  obtain ⟨p₁, hrun₁, hrun₂⟩ := hrun.split
  obtain ⟨s₁, hs₁, h₁⟩ := hs.greeting_turn .data (by rw [hps]; exact hq₁) hdata (by
    rw [Port.offered_append, hoffered, offered_opening, if_pos rfl, List.nil_append])
  have hasking : ∀ l, (Client.port l).taken [⟨.write .data client.token.bytes, .ok ()⟩,
      ⟨.write .data [timeout], .ok ()⟩] = [] := fun _ => rfl
  obtain ⟨s₂, hs₂, h₂⟩ := h₁.client_reads .data hrun₁
    (List.forall_mem_append.mpr ⟨fine_hearing .data, List.forall_mem_cons.mpr
      ⟨⟨trivial, fun _ => id⟩, List.forall_mem_singleton.mpr ⟨trivial, fun _ => id⟩⟩⟩)
    (fun l hl => by rw [Port.taken_append, taken_hearing, if_neg hl, hasking, List.append_nil]) (by
    rw [Function.update_self, offered_replying, Port.taken_append, Port.taken_append, Port.taken_append,
      htakenData, taken_opening, taken_hearing, if_pos rfl, hasking, List.append_nil]
    exact List.prefix_rfl)
  have hsent : (Client.port .data).offered [⟨.write .data client.token.bytes, .ok ()⟩,
      ⟨.write .data [timeout], .ok ()⟩] = client.token.bytes ++ [timeout] := rfl
  obtain ⟨s₃, hs₃, h₃⟩ := h₂.handler_turn .data (by rw [Function.update_self]; exact hq₂) hlaunch
    (sound_launchEvents _ _ _ _) (by
    simp only [Function.update_self, List.nil_append, Port.taken_append, Port.offered_append,
      taken_replying, taken_launchEvents, hoffered, offered_opening, offered_hearing, hsent, if_true]
    exact List.prefix_rfl)
  have hanswered : ∀ l, (Client.port l).taken [⟨.read .data 1, .ok [responseOk]⟩] =
      if .data = l then [responseOk] else [] := fun _ => List.append_nil _
  obtain ⟨s₄, hs₄, h₄⟩ := h₃.client_reads .data hrun₂ (List.forall_mem_singleton.mpr (fine_read rfl))
    (fun l hl => by rw [hanswered, if_neg hl]) (by
    simp only [Port.taken_append, taken_opening, taken_hearing, hasking, hanswered, htakenData,
      Function.update_self, List.nil_append, List.append_nil, if_true, Port.offered_append,
      offered_replying, offered_launchEvents]
    exact List.prefix_rfl)
  have hevents : hc ++ opening config .data ++ (hearing .data ++
      [⟨.write .data client.token.bytes, .ok ()⟩, ⟨.write .data [timeout], .ok ()⟩]) ++
        [⟨.read .data 1, .ok [responseOk]⟩] =
      hc ++ opening config .data ++ (hearing .data ++ attaching config client.token.bytes) := by
    simp [hattaching]
  rw [hevents] at h₄
  exact ⟨s₄, w', _, _, (hs₁.trans hs₂).trans (hs₃.trans hs₄), h₄⟩

def outcome (config : Client.Config) : Client.Connected :=
  ⟨config.needDataStream, Client.timeoutSecs config * 1000 / 2⟩

theorem connect_eq (config : Client.Config) (turns : Nat) : Client.connect config turns =
    ((Client.addCa config).bind fun _ => Client.connectControl config turns).bind fun token =>
      (Client.connectData config token).bind fun _ => .ret (outcome config) :=
  (Prog.bind_assoc ..).symm

theorem run_connecting (config : Client.Config) (turns : Nat) (token : Bytes) :
    Prog.Run (Client.connect config turns) (connecting config token) (.ret (outcome config)) := by
  rw [connect_eq]
  refine (run_connectControl config turns token).bind ?_
  split_ifs with hneed
  · have hdata := (run_connectData config hneed token).bind (f := fun _ =>
      (.ret (outcome config) : Client.ConnectProg Client.Connected)) (.nil _)
    rwa [List.append_nil] at hdata
  · unfold Client.connectData
    rw [if_neg hneed]
    exact .nil _

theorem given_connecting (config : Client.Config) (token : Bytes) :
    token ∈ (Client.trail (connecting config token)).tokens := by
  refine List.mem_flatMap.mpr ⟨⟨.read .control 32, .ok token⟩, ?_, List.mem_singleton_self _⟩
  unfold connecting loggingIn
  simp

/-- Whatever has happened before: a client that the server will let in can be connected. -/
theorem completes (hl : m.RegistryLaws v) (hr : Reachable s) (hw : Welcome s v n token) :
    ∃ s', Net.Later (wiring site) World.Env s s' ∧
      s'.history (.client n) = connecting (site.parties n).config token.bytes := by
  generalize hconfig : (site.parties n).config = config
  have hpeer := hw.peers .data
  rw [hconfig] at hpeer
  have hbody : (site.parties n).body =
      ((Client.addCa config).bind fun _ => Client.connectControl config (site.parties n).turns).bind
        fun token => ((Client.connectData config token).bind fun _ => .ret (outcome config)).bind
          (site.parties n).session := by
    unfold Party.body
    rw [hconfig, connect_eq, Prog.bind_assoc]
  rw [← hconfig] at hbody
  by_cases hneed : config.needDataStream = true
  · have hrest := ((run_connectData config hneed token.bytes).bind_left fun _ =>
      (.ret (outcome config) : Client.ConnectProg Client.Connected)).bind_left
        (site.parties n).session
    obtain ⟨p₁, hopening, hdata⟩ := hrest.split
    rw [← hconfig] at hopening
    obtain ⟨s₁, addr', hk, ps, hlater, hstage, hkdata, hpsdata⟩ :=
      hw.control_turns hl hr hbody hopening (fine_opening .data) fun l => taken_opening .data l
    rw [hconfig] at hstage
    have hsent : (Client.port .data).offered (arriving config ++ (hearing .control ++
        loggingIn config token.bytes)) = [] := by
      rw [Port.offered_append, offered_arriving]
      rfl
    have hread : (Client.port .data).taken (arriving config ++ (hearing .control ++
        loggingIn config token.bytes)) = [] := by
      rw [Port.taken_append, taken_arriving]
      rfl
    have hstored :
        (withClient s.world (newClient sha256 s.world config.user addr' token)).server.db.clientsByToken
          token = some (newClient sha256 s.world config.user addr' token) := Function.update_self ..
    obtain ⟨s', w', hk', ps', hlater', hstage'⟩ := hstage.data_turns hsent hread
      hkdata hpsdata hpeer hstored (Function.update_self ..) hdata
    refine ⟨s', hlater.trans hlater', ?_⟩
    rw [hstage'.client]
    unfold connecting
    rw [if_pos hneed, ← List.append_assoc _ (opening config .data)]
    rfl
  · have hskip : Prog.Run (((Client.connectData config token.bytes).bind fun _ =>
        .ret (outcome config)).bind (site.parties n).session) []
          ((site.parties n).session (outcome config)) := by
      unfold Client.connectData
      rw [if_neg hneed]
      exact .nil _
    rw [← hconfig] at hskip
    obtain ⟨s', addr, hk, ps, hlater, hstage, _⟩ := hw.control_turns hl hr hbody hskip
      (List.forall_mem_nil _) fun _ => rfl
    refine ⟨s', hlater, ?_⟩
    rw [hstage.client, hconfig]
    unfold connecting
    rw [if_neg hneed]

theorem connected_of_connecting (s' : Network m cfg crypto sha256 site) {token : Bytes}
    (h : s'.history (.client n) = connecting (site.parties n).config token) :
    Connected s' n (outcome (site.parties n).config) ∧ Given s' n token := by
  have hrun := run_connecting (site.parties n).config (site.parties n).turns token
  unfold Connected Given
  rw [h]
  exact ⟨⟨_, List.prefix_rfl, hrun⟩, _, _, List.prefix_rfl, hrun, given_connecting _ token⟩

end

def sampleClient (path : Str) (tls : Bool) : Client.Config where
  path := path
  user := ['u']
  password := ['p']
  timeout := 5000000000
  socketWaitTimeout := 0
  tls := tls
  tlsCa := none
  needDataStream := true

def sampleClients : Nat → Client.Config
  | 1 => sampleClient ['h', ':', '1'] true
  | 2 => sampleClient ['s', '.', 's', 'o', 'c', 'k'] false
  | _ => sampleClient ['h', ':', '1'] false

def samplePeers : Nat → Peer
  | 1 => .tcp [] true false 0
  | 2 => .unix ['s', '.', 's', 'o', 'c', 'k'] 0
  | _ => .tcp [] false true 0

def sampleParty (n : Nat) : Party where
  config := sampleClients n
  turns := 0
  session _ := .ret ()
  careful _ _ := Port.careful_of_stopsOn trivial
  reads _ := trivial

def sampleAccept (n : Nat) : Client.Link → Nat
  | .control => 2 * n
  | .data => 2 * n + 1

theorem sampleAccept_div (n : Nat) (l : Client.Link) : sampleAccept n l / 2 = n := by
  cases l with
  | control => simp only [sampleAccept]; omega
  | data => simp only [sampleAccept]; omega

theorem accepts_samplePeers (n : Nat) : Accepts (sampleClients n) (samplePeers n) := by
  unfold sampleClients samplePeers
  split
  · exact .tls [] false 0 rfl rfl
  · exact .unix _ 0 rfl
  · exact .plain [] false 0 rfl rfl

def sampleSite : Site where
  parties := sampleParty
  peers k := samplePeers (k / 2)
  accept := sampleAccept
  accept_inj n l n' l' h := by
    have hn : n = n' := by rw [← sampleAccept_div n l, h, sampleAccept_div]
    subst hn
    cases l with
    | control =>
      cases l' with
      | control => exact ⟨rfl, rfl⟩
      | data => exact absurd h (by simp only [sampleAccept]; omega)
    | data =>
      cases l' with
      | control => exact absurd h (by simp only [sampleAccept]; omega)
      | data => exact ⟨rfl, rfl⟩
  stream n l := by
    have haccepts := accepts_samplePeers n
    rw [sampleAccept_div]
    generalize samplePeers n = peer at haccepts ⊢
    cases haccepts with
    | plain => trivial
    | tls => trivial
    | unix => trivial

def sampleWorld : World listMap where
  server :=
    { db := ServerClientDB.new listMap
      acls := fun _ => some Acl.newFull
      passwords := some fun _ => some ['p']
      keys := none }
  dataChannel _ := none
  nextChannel := 0

def sampleNetwork : Network listMap sampleConfig sampleCrypto Token.bytes sampleSite where
  world := sampleWorld
  rest i := (node sampleConfig sampleCrypto Token.bytes sampleSite i).body
  history _ := []
  streams _ := ⟨[], []⟩

theorem reachable_sampleNetwork : Reachable sampleNetwork := .init ⟨rfl, rfl⟩

theorem sampleClients_eq (n : Nat) : ∃ path tls, sampleClients n = sampleClient path tls := by
  unfold sampleClients
  split
  · exact ⟨_, _, rfl⟩
  · exact ⟨_, _, rfl⟩
  · exact ⟨_, _, rfl⟩

theorem welcome_sampleNetwork (n : Nat) :
    Welcome sampleNetwork listMapView n (Token.replicate 7) where
  client := rfl
  handler _ := rfl
  peers l := by
    have hpeer : sampleSite.peers (sampleSite.accept n l) = samplePeers n :=
      congrArg samplePeers (sampleAccept_div n l)
    rw [hpeer]
    exact accepts_samplePeers n
  acceptable := by
    obtain ⟨path, tls, hconfig⟩ := sampleClients_eq n
    have hparty : (sampleSite.parties n).config = sampleClient path tls := hconfig
    have huser : 0 ∉ utf8 ['u'] := by decide
    have hfits : (utf8 ['u'] ++ 0 :: utf8 ['p']).length ≤ maxAuthFrameSize := by decide
    rw [hparty]
    exact ⟨huser, hfits⟩
  entitled _ := by
    obtain ⟨path, tls, hconfig⟩ := sampleClients_eq n
    have hparty : (sampleSite.parties n).config = sampleClient path tls := hconfig
    rw [hparty]
    exact ⟨_, fun _ => rfl, fun _ => rfl, rfl⟩
  token := by
    rintro c ⟨filters, hmem⟩
    cases hmem

end Psrt.Handshake
