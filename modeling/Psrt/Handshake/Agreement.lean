import Psrt.Handshake.Completion

/-! What client and server agree on once a client is connected: under which login the server knows it, and
whose the data channel is. -/

namespace Psrt.Handshake
open Wire Interaction

namespace Party
variable {p : Party} {h : List Client.ConnectEvent} {rest : Client.ConnectProg Unit}

theorem offered_append_data {h₁ h₂ : List Client.ConnectEvent} {c : Client.Connected}
    (hr : Prog.Run (p.session c) h₂ rest) :
    (Client.port .data).offered (h₁ ++ h₂) = (Client.port .data).offered h₁ := by
  have hnothing : (Client.port .data).offered h₂ = [] :=
    List.flatMap_eq_nil_iff.mpr ((p.reads c).of_run hr)
  rw [Port.offered_append, hnothing, List.append_nil]

theorem along_control (hr : Prog.Run p.body h rest)
    (hexact : ∀ e ∈ h, Client.Exact e.op e.resp) :
    Along ((Client.port .control).offered h) (Client.controlScript p.config) := by
  rcases hr.of_bind with ⟨p', hp', _⟩ | ⟨h₁, h₂, c, rfl, h₁run, h₂run⟩
  · exact .inl (Client.keeps_of_run hp' hexact).control
  · obtain ⟨_, token, _, hcontrol, _⟩ := Client.done_of_run h₁run fun e he =>
      hexact e (List.mem_append_left _ he)
    rw [Port.offered_append]
    refine .inr ?_
    rw [← hcontrol]
    exact List.prefix_append ..

theorem along_data (hr : Prog.Run p.body h rest) (hexact : ∀ e ∈ h, Client.Exact e.op e.resp) :
    (Client.port .data).offered h = [] ∨ ∃ token, p.Given h token ∧ token.length = 32 ∧
      (Client.port .data).offered h <+: Client.dataScript p.config token := by
  have hconnecting : ∀ {h₁ q}, h₁ <+: h → Prog.Run (Client.connect p.config p.turns) h₁ q →
      (Client.port .data).offered h = (Client.port .data).offered h₁ →
      (Client.port .data).offered h = [] ∨ ∃ token, p.Given h token ∧ token.length = 32 ∧
        (Client.port .data).offered h <+: Client.dataScript p.config token := by
    intro h₁ q hbefore h₁run hsame
    have hkeeps := Client.keeps_of_run h₁run fun e he => hexact e (hbefore.subset he)
    rw [hsame]
    rcases hkeeps.data with hnothing | ⟨token, hmem, hscript⟩
    · exact .inl hnothing
    · exact .inr ⟨token, ⟨h₁, q, hbefore, h₁run, hmem⟩, (hkeeps.tokens token hmem).1, hscript⟩
  rcases hr.of_bind with ⟨p', hp', _⟩ | ⟨h₁, h₂, c, rfl, h₁run, h₂run⟩
  · exact hconnecting List.prefix_rfl hp' rfl
  · exact hconnecting (List.prefix_append ..) h₁run (offered_append_data h₂run)

theorem Given.taken {token : Bytes} (hg : p.Given h token)
    (hexact : ∀ e ∈ h, Client.Exact e.op e.resp) :
    token.length = 32 ∧ Client.Link.control.reply ++ token <+: (Client.port .control).taken h := by
  obtain ⟨h₁, q, ⟨h₂, rfl⟩, hr, hmem⟩ := hg
  have hkeeps := Client.keeps_of_run hr fun e he => hexact e (List.mem_append_left _ he)
  obtain ⟨hlen, htaken⟩ := hkeeps.tokens token hmem
  refine ⟨hlen, ?_⟩
  rw [Port.taken_append, ← htaken]
  exact List.prefix_append ..

theorem Connected.taken {c : Client.Connected} (hc : p.Connected h c)
    (hdata : c.dataStream = true) (hexact : ∀ e ∈ h, Client.Exact e.op e.resp) :
    Client.Link.data.reply ++ [responseOk] <+: (Client.port .data).taken h := by
  obtain ⟨h₁, ⟨h₂, rfl⟩, hr⟩ := hc
  obtain ⟨hneed, token, _, _, hopened⟩ := Client.done_of_run hr fun e he =>
    hexact e (List.mem_append_left _ he)
  obtain ⟨_, htaken⟩ := hopened (hneed ▸ hdata)
  rw [Port.taken_append, ← show _ = _ from htaken]
  exact List.prefix_append ..

end Party

section
variable {cfg : Config} {peer : Peer} {s : Exchange} {config : Client.Config}

theorem length_replyHeader {greeting : Bytes} (h : greeting.length = 3) :
    (replyHeader greeting).length = 4 := by
  unfold replyHeader
  rw [List.length_append, List.length_take, length_leBytes, h]
  rfl

theorem token_of_shape (h : Shape cfg peer s) {token : Bytes} (hlen : token.length = 32)
    (hoffered : Client.Link.control.reply ++ token <+: s.offered) :
    ∃ login client, s.clients = [(login, client)] ∧ client.token.bytes = token := by
  have hlong : 36 ≤ s.offered.length := by
    have hle := hoffered.length_le
    rw [List.length_append, hlen] at hle
    exact hle
  cases h with
  | unregistered h =>
    rcases h.offered with hnothing | ⟨greeting, got, _, hgreeting, hreply⟩
    · rw [hnothing] at hlong
      exact absurd hlong (by decide)
    · have hle := hlong.trans hreply.length_le
      rw [List.length_append, length_replyHeader hgreeting] at hle
      exact absurd hle (by decide)
  | feeds t client h =>
    obtain ⟨greeting, timeout, _, hgreeting, _, _, hreply⟩ := h.frames
    have hle := hlong.trans hreply.length_le
    rw [List.length_append, length_replyHeader hgreeting] at hle
    exact absurd hle (by decide)
  | serves login client sent h hsent =>
    refine ⟨login, client, h.clients, ?_⟩
    obtain ⟨greeting, _, _, _, _, hgreeting, _, _, _, hreply, _⟩ := h.frames
    rw [hreply] at hoffered
    have hsaid := (along_append (.inl hoffered) (length_replyHeader hgreeting).symm).2
    have htoken : Along (token ++ []) (client.token.bytes ++ []) := by
      rw [List.append_nil, List.append_nil]
      rcases hsent with rfl | hsent
      · rw [hreply, List.append_nil, length_replyHeader hgreeting] at hlong
        exact absurd hlong (by decide)
      · rcases hsaid with hsaid | hsaid
        · exact List.prefix_or_prefix_of_prefix hsaid hsent
        · exact .inr (hsent.trans hsaid)
    exact (along_append htoken (hlen.trans client.token.length_eq.symm)).1.symm

theorem Serves.granted {login : Str} {client : ServerClient} {sent : Bytes}
    (h : Serves cfg peer login client sent s)
    (hfits : (Client.authText config).length < 2 ^ 32)
    (htaken : Along s.taken (Client.controlScript config)) :
    Vouched cfg s.events login (Client.authText config) peer := by
  obtain ⟨greeting, lenBuf, frame, got, hread, hgreeting, hlen, hframe, _, _, hvouched⟩ := h.frames
  rw [hread] at htaken
  have hafter := (along_append htaken hgreeting).2
  obtain ⟨hlenBuf, hbody⟩ := along_append hafter (hlen.trans (length_leBytes 4 _).symm)
  have hlength : frame.length = (Client.authText config).length := by
    rw [hframe, hlenBuf, leNat_leBytes_of_lt, Client.toNat_authLength hfits]
    exact (Client.authLength config).toNat_lt
  rw [← List.append_nil (Client.authText config)] at hbody
  rw [← (along_append hbody hlength).1]
  exact hvouched

theorem Feeds.token_eq {token : Token} {client : ServerClient} (h : Feeds token client s)
    {t : Bytes} (hlen : t.length = 32) (htaken : s.taken <+: Client.dataScript config t) :
    token.bytes = t := by
  obtain ⟨greeting, timeout, hread, hgreeting, _⟩ := h.frames
  rw [hread] at htaken
  have hafter := (along_append (.inl htaken) hgreeting).2
  exact (along_append hafter (token.length_eq.trans hlen.symm)).1

theorem channel_of_shape (h : Shape cfg peer s) {t : Bytes}
    (hoffered : Client.Link.data.reply ++ [responseOk] <+: s.offered)
    (htaken : s.taken <+: Client.dataScript config t) :
    ∃ token client, s.channels = [(token, client)] := by
  cases h with
  | unregistered h =>
    rcases h.offered with hnothing | ⟨greeting, got, _, hgreeting, hreply⟩
    · rw [hnothing] at hoffered
      exact absurd hoffered.length_le (by decide)
    · have hwhole := hoffered.trans hreply
      rcases (along_append (.inl hwhole) (length_replyHeader hgreeting).symm).2 with hcode | hcode
      · exact absurd hcode (by decide)
      · exact absurd hcode (by decide)
  | feeds token client h => exact ⟨token, client, h.channels⟩
  | serves login client sent h hsent =>
    obtain ⟨greeting, _, _, _, hread, hgreeting, _, _, hasks, _⟩ := h.frames
    rw [hread] at htaken
    have hdata : streamType greeting = .ok .data := by
      rw [(along_append (.inl htaken) hgreeting).1]
      rfl
    rw [hdata] at hasks
    cases hasks

end

variable {m : SubMap} {cfg : Config} {crypto : Crypto} {sha256 : Token → Digest} {site : Site}
  {s s' : Network m cfg crypto sha256 site}

section
variable (hr : Reachable s)
include hr

theorem exact_client (n : Nat) : ∀ e ∈ s.history (.client n), Client.Exact e.op e.resp := by
  intro e he
  obtain ⟨w, w', _, hexact⟩ := hr.exec (.client n) e he
  exact hexact

theorem exact_handler (k : Nat) : ∀ e ∈ s.history (.handler k), HandlerExact e.op e.resp := by
  intro e he
  obtain ⟨w, w', hexec⟩ := hr.exec (.handler k) e he
  exact handlerExact_of_exec hexec

theorem shape_of_reachable (n : Nat) (l : Client.Link) :
    Shape cfg (site.peers (site.accept n l)) (exchanged s (site.accept n l)) := by
  obtain ⟨init, control, hstreams⟩ := site.streams cfg n l
  exact hstreams.shape_of_run (hr.run (.handler (site.accept n l))) (exact_handler hr _)

/-- The handler of a connection reads what the client wrote, and the client what the handler wrote. -/
theorem requests_read (n : Nat) (l : Client.Link) : (exchanged s (site.accept n l)).taken <+:
    (Client.port l).offered (s.history (.client n)) :=
  hr.taken_prefix failStop ⟨n, l, .request⟩

theorem answers_read (n : Nat) (l : Client.Link) :
    (Client.port l).taken (s.history (.client n)) <+: (exchanged s (site.accept n l)).offered :=
  hr.taken_prefix failStop ⟨n, l, .answer⟩

theorem registered_of_given {n : Nat} {token : Bytes} (hg : Given s n token) :
    ∃ login client, Registered s (site.accept n .control) login client ∧
      client.token.bytes = token := by
  obtain ⟨hlen, htaken⟩ := Party.Given.taken hg (exact_client hr n)
  obtain ⟨login, client, hclients, htoken⟩ := token_of_shape (shape_of_reachable hr n .control) hlen
    (htaken.trans (answers_read hr n .control))
  refine ⟨login, client, ?_, htoken⟩
  unfold Registered
  rw [hclients]
  exact List.mem_singleton_self _

/-- A client is registered under the login in its own configuration: over TCP once the credentials in it
passed, or both are empty where that is allowed, and an access list was found; over a UNIX socket as it says. -/
theorem vouched_of_registered {n : Nat}
    (hfits : (Client.authText (site.parties n).config).length < 2 ^ 32) {login : Str}
    {client : ServerClient} (hreg : Registered s (site.accept n .control) login client) :
    Vouched cfg (exchanged s (site.accept n .control)).events login
      (Client.authText (site.parties n).config) (site.peers (site.accept n .control)) := by
  have halong := Party.along_control (hr.run (.client n)) (exact_client hr n)
  have htaken := halong.of_prefix (requests_read hr n .control)
  unfold Registered at hreg
  cases shape_of_reachable hr n .control with
  | unregistered h =>
    rw [h.clients] at hreg
    cases hreg
  | feeds token client h =>
    rw [h.clients] at hreg
    cases hreg
  | serves login' client' sent h hsent =>
    rw [h.clients] at hreg
    cases List.mem_singleton.mp hreg
    exact Serves.granted h hfits htaken

theorem given_of_opened {n : Nat} {token : Token} {client : ServerClient}
    (ho : Opened s (site.accept n .data) token client) : Given s n token.bytes := by
  unfold Opened at ho
  cases shape_of_reachable hr n .data with
  | unregistered h =>
    rw [h.channels] at ho
    cases ho
  | serves login' client' sent h hsent =>
    rw [h.channels] at ho
    cases ho
  | feeds token' client' h =>
    rw [h.channels] at ho
    cases List.mem_singleton.mp ho
    have hread := requests_read hr n .data
    rcases Party.along_data (hr.run (.client n)) (exact_client hr n) with hnothing | ⟨t, hg, hlen, hscript⟩
    · obtain ⟨greeting, timeout, htaken, hgreeting, _⟩ := h.frames
      rw [hnothing, htaken] at hread
      have hle := hread.length_le
      rw [List.length_append, hgreeting] at hle
      exact absurd hle (by simp)
    · rw [Feeds.token_eq h hlen (hread.trans hscript)]
      exact hg

theorem opened_of_connected {n : Nat} {c : Client.Connected} (hc : Connected s n c)
    (hdata : c.dataStream = true) :
    ∃ token client, Opened s (site.accept n .data) token client := by
  have hoffered := (Party.Connected.taken hc hdata (exact_client hr n)).trans
    (answers_read hr n .data)
  have hread := requests_read hr n .data
  have hopened : ∃ token client, (exchanged s (site.accept n .data)).channels = [(token, client)] := by
    rcases Party.along_data (hr.run (.client n)) (exact_client hr n) with hnothing | ⟨t, _, _, hscript⟩
    · rw [hnothing, List.prefix_nil] at hread
      have hsilent : (exchanged s (site.accept n .data)).taken <+:
          Client.dataScript (site.parties n).config [] := by
        rw [hread]
        exact List.nil_prefix
      exact channel_of_shape (shape_of_reachable hr n .data) hoffered hsilent
    · exact channel_of_shape (shape_of_reachable hr n .data) hoffered (hread.trans hscript)
  obtain ⟨token, client, hchannels⟩ := hopened
  refine ⟨token, client, ?_⟩
  unfold Opened
  rw [hchannels]
  exact List.mem_singleton_self _

end

def phase (s : Network m cfg crypto sha256 site) (k : Nat) : Phase :=
  connectionPhase (s.history (.handler k))

theorem phase_update (s : Network m cfg crypto sha256 site) (k : Nat) (world : World m) (rest)
    (streams) (e : HandlerEvent) :
    phase (⟨world, rest, Function.update s.history (.handler k) (s.history (.handler k) ++ [e]),
        streams⟩ : Network m cfg crypto sha256 site) =
      Function.update (phase s) k (connectionPhases.next (phase s k) e.op e.resp) := by
  funext j
  unfold phase
  by_cases hj : j = k
  · subst hj
    rw [Function.update_self]
    simp only [Function.update_self]
    exact Monitor.after_snoc ..
  · have hne : Id.handler j ≠ Id.handler k := fun h => hj (Id.handler.inj h)
    simp only [Function.update_of_ne hne, Function.update_of_ne hj]

section
variable {v : m.View} (hl : m.RegistryLaws v)

theorem accepts_phase (hr : Reachable s) (k : Nat) :
    connectionPhases.Accepts .fresh (s.history (.handler k)) ∧
      connectionPhases.wp (s.rest (.handler k)) (fun _ p => p.Left) (fun _ p => p.Left)
        (phase s k) :=
  Monitor.wp_run (wp_connectionPhases cfg (site.peers k)) (hr.run (.handler k))
    (Monitor.admits_of_forall (fun _ _ _ => trivial) _)

include hl in
theorem registryInv_of_reachable (hr : Reachable s) :
    RegistryInv v sha256 s.world.server.db (phase s) := by
  refine Net.Reachable.invariant (I := fun s => RegistryInv v sha256 s.world.server.db (phase s))
    ?_ ?_ hr
  · intro world hstarts
    rw [hstarts.1]
    exact registryInv_new hl
  · intro s s' hr hinv hs
    cases hs with
    | env world h =>
      rw [h.db_eq]
      exact hinv
    | act i e q world streams hs hw hc =>
      cases i with
      | client n =>
        obtain ⟨rfl, _⟩ := hw
        have hne : ∀ k, Id.handler k ≠ Id.client n := nofun
        unfold phase
        simp only [Function.update_of_ne (hne _)]
        exact hinv
      | handler k =>
        obtain ⟨hallowed, _⟩ := Monitor.wp_step (accepts_phase hr k).2 hs trivial
        have hstep := hinv.step hl (registryStep_of_connection hl hallowed hw)
        rw [phase_update]
        exact hstep

theorem client_of_registered (hr : Reachable s) {k : Nat} {login : Str} {client : ServerClient}
    (hreg : Registered s k login client) : (phase s k).client = some client := by
  obtain ⟨addr, hmem⟩ := mem_serverEvents hreg
  unfold phase
  rw [connectionPhase_eq]
  exact client_phaseOf_of_mem (accepts_serverEvents (accepts_phase hr k).1) hmem

include hl in
theorem own_of_opened (hr : Reachable s) (n : Nat) : ∀ token client,
    Opened s (site.accept n .data) token client → client.token = token ∧
      ∀ c₀, (phase s (site.accept n .control)).Holds c₀ → client = c₀ := by
  have hne : site.accept n .control ≠ site.accept n .data := fun h =>
    absurd (site.accept_inj _ _ _ _ h).2 nofun
  refine Net.Reachable.invariant (I := fun s => ∀ token client,
    Opened s (site.accept n .data) token client → client.token = token ∧
      ∀ c₀, (phase s (site.accept n .control)).Holds c₀ → client = c₀) ?_ ?_ hr
  · intro world _ token client ho
    cases ho
  · intro s s' hr hinv hs token client ho
    have hr' : Reachable s' := .step hr hs
    -- the client that the token stands for is the one the control handler registered
    have howner : ∀ c₀, (phase s' (site.accept n .control)).Holds c₀ → c₀.token = token := by
      intro c₀ hholds
      obtain ⟨login, c₁, hreg, htoken⟩ := registered_of_given hr' (given_of_opened hr' ho)
      have hclient := client_of_registered hr' hreg
      rw [Phase.client_of_holds hholds] at hclient
      obtain rfl := Option.some.inj hclient
      exact Token.eq_of_bytes htoken
    have hkept : ∀ j, s'.history (.handler j) = s.history (.handler j) →
        (Opened s' j token client → Opened s j token client) ∧ phase s' j = phase s j := by
      intro j hj
      unfold Opened exchanged phase
      rw [hj]
      exact ⟨id, rfl⟩
    cases hs with
    | env world h => exact hinv token client ho
    | act i e q world streams hs hw hc =>
      have hupdate : ∀ j, Id.handler j ≠ i →
          Function.update s.history i (s.history i ++ [e]) (.handler j) = s.history (.handler j) :=
        fun j hj => Function.update_of_ne hj ..
      by_cases hdata : i = .handler (site.accept n .data)
      · subst hdata
        rw [(hkept _ (hupdate _ fun h => hne (Id.handler.inj h))).2] at howner ⊢
        have hchannels : (token, client) ∈
            (s.history (.handler (site.accept n .data)) ++ [e]).flatMap channelsOf := by
          unfold Opened exchanged at ho
          simp only [Function.update_self] at ho
          exact ho
        rw [List.flatMap_append, List.mem_append] at hchannels
        rcases hchannels with hold | hnew
        · exact hinv token client hold
        · have hinvariant := registryInv_of_reachable hl hr
          have hstored := stored_of_channelsOf hnew hw
          refine ⟨(hinvariant.consistent.known token client hstored).2, fun c₀ hholds => ?_⟩
          have hmem := (hinvariant.place _ c₀ (Phase.client_of_holds hholds)).mpr hholds
          have hc₀ := hinvariant.consistent.stored c₀ hmem
          rw [howner c₀ hholds, hstored] at hc₀
          exact Option.some.inj hc₀
      · obtain ⟨hopened, _⟩ := hkept _ (hupdate _ (Ne.symm hdata))
        obtain ⟨htoken, hown⟩ := hinv token client (hopened ho)
        refine ⟨htoken, fun c₀ hholds => hown c₀ ?_⟩
        by_cases hcontrol : i = .handler (site.accept n .control)
        · subst hcontrol
          rw [phase_update, Function.update_self] at hholds
          rcases holds_of_next hholds with hholds | hfresh
          · exact hholds
          · -- the token was given out before the data channel was asked for
            obtain ⟨login, c₁, hreg, _⟩ := registered_of_given hr (given_of_opened hr (hopened ho))
            have hclient := client_of_registered hr hreg
            rw [hfresh] at hclient
            cases hclient
        · rw [(hkept _ (hupdate _ (Ne.symm hcontrol))).2] at hholds
          exact hholds

end

theorem login_of_registered (hr : Reachable s) {k : Nat} {login : Str} {client : ServerClient}
    (hreg : Registered s k login client) : client.login = login := by
  obtain ⟨⟨o, r⟩, he, hclient⟩ := List.mem_flatMap.mp hreg
  obtain ⟨w, w', hexec⟩ := hr.exec (.handler k) _ he
  cases o with
  | server o =>
    cases o with
    | registerClient login' addr =>
      cases r with
      | error e => cases hclient
      | ok c =>
        cases List.mem_singleton.mp hclient
        obtain ⟨⟨draws, db', hdraws, _⟩, _⟩ := hexec
        exact (ServerClientDB.login_of_registerClient hdraws).1
    | _ => cases hclient
  | _ => cases hclient

/-- Client and server agree on who is connected, in every run, if the login text of the client fits its
length prefix: the client that a handler registers goes by the login its peer is configured with. Over TCP
the credentials in that configuration have passed, or are empty where that is allowed, and the login has an
access list; over a UNIX socket neither is asked for. And the token the peer is given is that of this client. -/
theorem login_agreement (hr : Reachable s) (n : Nat)
    (hfits : (Client.authText (site.parties n).config).length < 2 ^ 32) :
    (∀ login client, Registered s (site.accept n .control) login client → client.login = login ∧
      Vouched cfg (exchanged s (site.accept n .control)).events login
        (Client.authText (site.parties n).config) (site.peers (site.accept n .control))) ∧
    (∀ token, Given s n token → ∃ login client,
      Registered s (site.accept n .control) login client ∧ client.token.bytes = token) :=
  ⟨fun _ _ hreg => ⟨login_of_registered hr hreg, vouched_of_registered hr hfits hreg⟩,
    fun _ hg => registered_of_given hr hg⟩

theorem login_agreement_sample : ∃ s : Network listMap sampleConfig sampleCrypto Token.bytes sampleSite,
    Reachable s ∧ ∃ login client, Registered s 0 login client ∧ client.token = Token.replicate 7 ∧
      client.login = login ∧ Vouched sampleConfig (exchanged s 0).events login
        (Client.authText (sampleParty 0).config) (.tcp [] false true 0) := by
  obtain ⟨s, hlater, hhistory⟩ := completes listMap_laws.toRegistryLaws reachable_sampleNetwork
    (welcome_sampleNetwork 0)
  have hr : Reachable s := reachable_sampleNetwork.later hlater
  obtain ⟨_, hgiven⟩ := connected_of_connecting s hhistory
  obtain ⟨hlogin, htoken⟩ := login_agreement hr 0 (by decide)
  obtain ⟨login, client, hreg, hbytes⟩ := htoken _ hgiven
  obtain ⟨hname, hvouched⟩ := hlogin login client hreg
  exact ⟨s, hr, login, client, hreg, Token.eq_of_bytes hbytes, hname, hvouched⟩

/-- A data channel belongs to the client that asks for it: it is registered for the token that this client
was given on its control stream, so for the client its control handler registered, unless that handler has
let it go in the meantime; and a client that is connected with a data stream has such a channel. -/
theorem data_channel_agreement {v : m.View} (hl : m.RegistryLaws v) (hr : Reachable s) (n : Nat) :
    (∀ token client, Opened s (site.accept n .data) token client → client.token = token ∧
      Given s n token.bytes ∧ ∃ login c₀, Registered s (site.accept n .control) login c₀ ∧
        c₀.token = token ∧ (client = c₀ ∨ ¬ (phase s (site.accept n .control)).Holds c₀)) ∧
    (∀ c, Connected s n c → c.dataStream = true →
      ∃ token client, Opened s (site.accept n .data) token client) := by
  refine ⟨fun token client ho => ?_, fun c hc hdata => opened_of_connected hr hc hdata⟩
  obtain ⟨htoken, hown⟩ := own_of_opened hl hr n token client ho
  have hgiven := given_of_opened hr ho
  obtain ⟨login, c₀, hreg, hbytes⟩ := registered_of_given hr hgiven
  refine ⟨htoken, hgiven, login, c₀, hreg, Token.eq_of_bytes hbytes, ?_⟩
  by_cases hholds : (phase s (site.accept n .control)).Holds c₀
  · exact .inl (hown c₀ hholds)
  · exact .inr hholds

theorem data_channel_agreement_sample :
    ∃ s : Network listMap sampleConfig sampleCrypto Token.bytes sampleSite, Reachable s ∧
      ∃ token client login c₀, Opened s 1 token client ∧ client.token = token ∧
        Registered s 0 login c₀ ∧ c₀.token = token ∧ (client = c₀ ∨ ¬ (phase s 0).Holds c₀) := by
  obtain ⟨s, hlater, hhistory⟩ := completes listMap_laws.toRegistryLaws reachable_sampleNetwork
    (welcome_sampleNetwork 0)
  have hr : Reachable s := reachable_sampleNetwork.later hlater
  obtain ⟨hconnected, _⟩ := connected_of_connecting s hhistory
  obtain ⟨hown, hopens⟩ := data_channel_agreement listMap_laws.toRegistryLaws hr 0
  obtain ⟨token, client, ho⟩ := hopens _ hconnected rfl
  obtain ⟨htoken, _, login, c₀, hreg, htoken₀, hsame⟩ := hown token client ho
  exact ⟨s, hr, token, client, login, c₀, ho, htoken, hreg, htoken₀, hsame⟩

end Psrt.Handshake
