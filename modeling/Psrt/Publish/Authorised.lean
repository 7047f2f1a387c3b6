import Psrt.Client.Udp
import Psrt.Server.Calls
import Psrt.Server.Peers

/-! Who may publish: behind every push there is an authenticated principal and an access list in
force for it that lets the pushed topic be written. -/

namespace Psrt
open Wire Interaction

/-- What a handler has learnt of its peer: octets it sent, logins whose password was verified, blocks
that decrypted under the key of a login, and the access lists in force. -/
structure Evidence where
  sent : Bytes → Prop
  verified : Str → Str → Prop
  decrypted : Str → Bytes → Prop
  acl : Str → Acl → Prop

def Credentials (cfg : Config) (ev : Evidence) (login password : Str) : Prop :=
  (login = [] ∧ password = [] ∧ cfg.allowAnonymous = true) ∨ ev.verified login password

def MayWrite (ev : Evidence) (login topic : Str) : Prop :=
  ∃ acl, ev.acl login acl ∧ acl.allowWrite topic = true

/-- The principal behind a peer, by the login it sent, may publish to the topic. -/
def Authorised (cfg : Config) (ev : Evidence) (topic : Str) : Peer → Prop
  | .tcp _ _ _ _ => ∃ login password, 0 ∉ utf8 login ∧
      ev.sent (utf8 login ++ 0 :: utf8 password) ∧ Credentials cfg ev login password ∧
      MayWrite ev login topic
  | .unix _ _ => Acl.newFull.allowWrite topic = true
  | .udp frame => ∃ login rest, 0 ∉ utf8 login ∧ frame.drop 5 = utf8 login ++ 0 :: rest ∧
      ((∃ password block, 0 ∉ utf8 password ∧ rest = utf8 password ++ 0 :: block ∧
          Credentials cfg ev login password) ∨ ev.decrypted login rest) ∧
      MayWrite ev login topic

def evidence (h : List ServerEvent) : Evidence where
  sent b := ∃ n, ⟨.read n, .ok b⟩ ∈ h
  verified login password := ⟨.authenticate login password, true⟩ ∈ h
  decrypted login block := ∃ tp plain, ⟨.authAndDecr block (udpKeyId login) tp, .ok plain⟩ ∈ h
  acl login acl := ⟨.getAcl login, some acl⟩ ∈ h

structure Evidence.Le (ev ev' : Evidence) : Prop where
  sent : ∀ b, ev.sent b → ev'.sent b
  verified : ∀ login password, ev.verified login password → ev'.verified login password
  decrypted : ∀ login block, ev.decrypted login block → ev'.decrypted login block
  acl : ∀ login acl, ev.acl login acl → ev'.acl login acl

theorem evidence_le {h h' : List ServerEvent} (hsub : h ⊆ h') : (evidence h).Le (evidence h') where
  sent _ := fun ⟨n, hn⟩ => ⟨n, hsub hn⟩
  verified _ _ := fun hv => hsub hv
  decrypted _ _ := fun ⟨tp, plain, hd⟩ => ⟨tp, plain, hsub hd⟩
  acl _ _ := fun ha => hsub ha

section
variable {cfg : Config} {ev ev' : Evidence}

theorem Credentials.mono (hle : ev.Le ev') {login password : Str}
    (h : Credentials cfg ev login password) : Credentials cfg ev' login password := by
  rcases h with h | h
  · exact .inl h
  · exact .inr (hle.verified _ _ h)

theorem MayWrite.mono (hle : ev.Le ev') {login topic : Str} (h : MayWrite ev login topic) :
    MayWrite ev' login topic := by
  obtain ⟨acl, hacl, hw⟩ := h
  exact ⟨acl, hle.acl _ _ hacl, hw⟩

theorem Authorised.mono (hle : ev.Le ev') {topic : Str} {peer : Peer}
    (h : Authorised cfg ev topic peer) : Authorised cfg ev' topic peer := by
  cases peer with
  | tcp addr tlsConfigured allowNoTls turns =>
    obtain ⟨login, password, hlogin, hsent, hcred, hw⟩ := h
    exact ⟨login, password, hlogin, hle.sent _ hsent, hcred.mono hle, hw.mono hle⟩
  | unix path turns => exact h
  | udp frame =>
    obtain ⟨login, rest, hlogin, hframe, hprincipal, hw⟩ := h
    refine ⟨login, rest, hlogin, hframe, ?_, hw.mono hle⟩
    rcases hprincipal with ⟨password, block, hpassword, hrest, hcred⟩ | hdecrypted
    · exact .inl ⟨password, block, hpassword, hrest, hcred.mono hle⟩
    · exact .inr (hle.decrypted _ _ hdecrypted)

end

/-- Watches a handler with its history for a state: a push needs an authorised principal. -/
def authorisedMonitor (cfg : Config) (peer : Peer) :
    Monitor ServerOp ServerOp.Resp (List ServerEvent) where
  allowed h
    | .pushToSubscribers _ _ topic _ _ => Authorised cfg (evidence h) topic peer
    | _ => True
  possible _ _ _ := True
  next h o r := h ++ [⟨o, r⟩]

def PushesAllowed (acl : Acl) : ServerOp → Prop
  | .pushToSubscribers _ _ topic _ _ => acl.allowWrite topic = true
  | _ => True

theorem authorisedMonitor_after (cfg : Config) (peer : Peer) (h h' : List ServerEvent) :
    (authorisedMonitor cfg peer).after h h' = h ++ h' := Monitor.history_after h h'

theorem authorisedMonitor_admits (cfg : Config) (peer : Peer) (s h : List ServerEvent) :
    (authorisedMonitor cfg peer).Admits s h := Monitor.history_admits s h

section
variable {cfg : Config} {peer : Peer} {ε α : Type}

theorem wp_noPush {p : ServerProg ε α} (hp : p.Calls NoPush) (h : List ServerEvent) :
    (authorisedMonitor cfg peer).wp p (fun _ h' => h ⊆ h') (fun _ h' => h ⊆ h') h := by
  refine Monitor.wp_of_calls (I := fun h' => h ⊆ h') ?_ ?_ hp (List.Subset.refl h)
  · intro h' o r hsub _ _
    exact List.Subset.trans hsub (List.subset_append_left ..)
  · intro h' o _ ho
    cases o with
    | pushToSubscribers => exact ho.elim
    | _ => trivial

theorem wp_pushesAllowed (acl : Acl) {p : ServerProg ε α} (hp : p.Calls (PushesAllowed acl))
    {h : List ServerEvent}
    (hacl : ∀ topic, acl.allowWrite topic = true → Authorised cfg (evidence h) topic peer) :
    (authorisedMonitor cfg peer).wp p (fun _ _ => True) (fun _ _ => True) h := by
  refine Monitor.wp_mono (fun _ _ _ => trivial) (fun _ _ _ => trivial)
    (Monitor.wp_of_calls (I := fun h' => h ⊆ h') ?_ ?_ hp (List.Subset.refl h))
  · intro h' o r hsub _ _
    exact List.Subset.trans hsub (List.subset_append_left ..)
  · intro h' o hsub ho
    cases o with
    | pushToSubscribers subscribers priority topic message timestamp =>
      exact (hacl topic ho).mono (evidence_le hsub)
    | _ => trivial

theorem pushesAllowed_of_controlOp (hcluster : cfg.cluster = false) {client : ServerClient}
    {acl : Acl} : ∀ o, ControlOp cfg client acl o → PushesAllowed acl o := by
  intro o ho
  cases o with
  | pushToSubscribers subscribers priority topic message timestamp =>
    rcases ho with hw | hc
    · exact hw
    · rw [hcluster] at hc
      cases hc
  | _ => trivial

theorem serveClient_pushesAllowed (hcluster : cfg.cluster = false) (acl : Acl)
    (login addr : Str) (turns : Nat) :
    (serveClient cfg acl login addr turns).Calls (PushesAllowed acl) :=
  calls_serveClient cfg acl (fun _ => trivial) (fun _ => pushesAllowed_of_controlOp hcluster)
    trivial (fun _ => trivial) (fun _ => trivial) turns

theorem wp_readFrame_sent (maxLength : Option Nat) (h : List ServerEvent) :
    (authorisedMonitor cfg peer).wp (readFrame maxLength)
      (fun b h' => (evidence h').sent b) (fun _ _ => True) h := by
  unfold readFrame readFrameWith
  rw [Prog.bind_eq, Monitor.wp_bind]
  refine Monitor.wp_mono (fun lenBuf h' _ => ?_) (fun _ _ _ => trivial)
    (wp_noPush (calls_readExact (fun _ => trivial) 4) h)
  dsimp only
  split_ifs
  · trivial
  · refine ⟨trivial, fun r _ => ?_⟩
    cases r with
    | error e => trivial
    | ok b => exact ⟨_, List.mem_append_right _ (List.mem_singleton_self _)⟩

theorem wp_authenticateTcp {login password addr : Str} (h : List ServerEvent) :
    (authorisedMonitor cfg peer).wp (authenticateTcp cfg login password addr)
      (fun _ h' => h ⊆ h' ∧ Credentials cfg (evidence h') login password) (fun _ _ => True) h := by
  unfold authenticateTcp
  split_ifs with hempty hallow
  · simp only [Bool.and_eq_true, List.isEmpty_iff] at hempty
    exact ⟨List.Subset.refl h, .inl ⟨hempty.1, hempty.2, hallow⟩⟩
  · trivial
  · refine ⟨trivial, fun verified _ => ?_⟩
    cases verified with
    | false => trivial
    | true =>
      exact ⟨List.subset_append_left .., .inr (List.mem_append_right _ (List.mem_singleton_self _))⟩

theorem wp_handleTcpStream (hcluster : cfg.cluster = false) (addr : Str)
    (tlsConfigured allowNoTls : Bool) (turns : Nat) :
    (authorisedMonitor cfg (.tcp addr tlsConfigured allowNoTls turns)).wp
      (handleTcpStream cfg addr tlsConfigured allowNoTls turns)
      (fun _ _ => True) (fun _ _ => True) [] := by
  unfold handleTcpStream
  rw [Prog.bind_eq, Monitor.wp_bind]
  refine Monitor.wp_mono (fun st h₀ _ => ?_) (fun _ _ _ => trivial)
    (wp_noPush (calls_initTcpStream (fun _ => trivial) (fun _ => trivial) trivial tlsConfigured
      allowNoTls) [])
  split_ifs
  · refine Monitor.wp_mono (fun _ _ _ => trivial) (fun _ _ _ => trivial) (wp_noPush ?_ h₀)
    exact Prog.Calls.bind (Prog.calls_op trivial) fun r =>
      Prog.Calls.bind (Prog.calls_ofExcept r) fun _ => trivial
  · rw [Prog.bind_eq, Monitor.wp_bind]
    refine Monitor.wp_mono (fun frame h₁ hsent => ?_) (fun _ _ _ => trivial)
      (wp_readFrame_sent _ h₀)
    cases hl : strFromUtf8 (splitFirst 0 frame).1 with
    | error e => trivial
    | ok login =>
      obtain ⟨hlogin0, hwhole⟩ := field_of_splitFirst hl
      cases hrest : (splitFirst 0 frame).2 with
      | none => trivial
      | some rest =>
        cases hp : strFromUtf8 rest with
        | error e =>
          simp only [Prog.bind_eq, Prog.ofExcept_ok, Prog.ret_bind, hp]
          trivial
        | ok password =>
          have hframe : frame = utf8 login ++ 0 :: utf8 password := by
            rw [utf8_of_strFromUtf8 hp]
            exact hwhole rest hrest
          simp only [Prog.bind_eq, Prog.ofExcept_ok, Prog.ret_bind, hp]
          rw [Monitor.wp_bind]
          refine Monitor.wp_mono (fun _ h₂ hcred => ?_) (fun _ _ _ => trivial)
            (wp_authenticateTcp h₁)
          refine ⟨trivial, fun acl _ => ?_⟩
          cases acl with
          | none => trivial
          | some acl =>
            refine wp_pushesAllowed acl (serveClient_pushesAllowed hcluster acl login addr turns) ?_
            -- what the access list of this login lets through was sent by a peer with its password
            intro topic hw
            have hle := evidence_le (List.subset_append_left h₂ [⟨.getAcl login, some acl⟩])
            have hsent' := (evidence_le hcred.1).sent _ (hframe ▸ hsent)
            exact ⟨login, password, hlogin0, hle.sent _ hsent', hcred.2.mono hle, acl,
              List.mem_append_right _ (List.mem_singleton_self _), hw⟩

theorem wp_handleUnixStream (hcluster : cfg.cluster = false) (path : Str) (turns : Nat) :
    (authorisedMonitor cfg (.unix path turns)).wp (handleUnixStream cfg path turns)
      (fun _ _ => True) (fun _ _ => True) [] := by
  refine wp_pushesAllowed Acl.newFull ?_ fun topic hw => hw
  have hlogin : ∀ o, LoginOp o → PushesAllowed Acl.newFull o := by
    intro o ho
    cases o with
    | pushToSubscribers => exact ho.elim
    | _ => trivial
  exact handleUnixStream_rule cfg (fun hp hf => (hp.mono hlogin).bind hf) trivial fun login =>
    serveClient_pushesAllowed hcluster Acl.newFull login path turns

theorem wp_authenticateUdp {login password : Str} (needAck : Bool) (h : List ServerEvent) :
    (authorisedMonitor cfg peer).wp (authenticateUdp cfg login (some password) needAck)
      (fun _ h' => h ⊆ h' ∧ Credentials cfg (evidence h') login password) (fun _ _ => True) h := by
  unfold authenticateUdp
  dsimp only
  split_ifs with hempty hallow
  · simp only [Bool.and_eq_true, List.isEmpty_iff] at hempty
    exact ⟨List.Subset.refl h, .inl ⟨hempty.1, hempty.2, hallow⟩⟩
  · trivial
  · refine ⟨trivial, fun verified _ => ?_⟩
    cases verified with
    | false => trivial
    | true =>
      exact ⟨List.subset_append_left .., .inr (List.mem_append_right _ (List.mem_singleton_self _))⟩

theorem wp_publishUdp {login : Str} {password : Option Str} (needAck : Bool) (priority : UInt8)
    (raw : Str) (data : Bytes) (timestamp : UInt64) {h : List ServerEvent}
    (hprincipal : (authorisedMonitor cfg peer).wp (authenticateUdp cfg login password needAck)
      (fun _ h' => ∀ h'', h' ⊆ h'' → ∀ topic, MayWrite (evidence h'') login topic →
        Authorised cfg (evidence h'') topic peer) (fun _ _ => True) h) :
    (authorisedMonitor cfg peer).wp
      (publishUdp cfg login password needAck priority raw data timestamp)
      (fun _ _ => True) (fun _ _ => True) h := by
  unfold publishUdp
  rw [Prog.bind_eq, Monitor.wp_bind]
  refine Monitor.wp_mono (fun _ h' hauth => ?_) (fun _ _ _ => trivial) hprincipal
  rw [Prog.bind_eq, Prog.op_bind]
  refine ⟨trivial, fun acl _ => ?_⟩
  cases acl with
  | none => trivial
  | some acl =>
    refine wp_pushesAllowed acl ?_ fun topic hw => ?_
    · refine Prog.Calls.bind ((Prog.calls_ofExcept _).mapError _) fun topic => ?_
      split_ifs with hinvalid hwrite
      · trivial
      · trivial
      · have hw : acl.allowWrite topic = true := by
          simpa only [Bool.not_eq_true', Bool.not_eq_false] using hwrite
        exact calls_deliver cfg trivial (fun _ => hw) (fun _ => trivial) trivial
    · exact hauth _ (List.subset_append_left ..) topic
        ⟨acl, List.mem_append_right _ (List.mem_singleton_self _), hw⟩

theorem wp_processUdpBlock {login : Str} {password : Option Str} (block : Bytes)
    (timestamp : UInt64) {h : List ServerEvent}
    (hprincipal : ∀ needAck, (authorisedMonitor cfg peer).wp
      (authenticateUdp cfg login password needAck)
      (fun _ h' => ∀ h'', h' ⊆ h'' → ∀ topic, MayWrite (evidence h'') login topic →
        Authorised cfg (evidence h'') topic peer) (fun _ _ => True) h) :
    (authorisedMonitor cfg peer).wp (processUdpBlock cfg login password block timestamp)
      (fun _ _ => True) (fun _ _ => True) h := by
  rw [processUdpBlock_eq]
  cases parseBlock block with
  | error e => trivial
  | ok b => exact wp_publishUdp b.needAck b.priority b.raw b.data timestamp (hprincipal b.needAck)

theorem wp_processUdpPacket (frame : Bytes) :
    (authorisedMonitor cfg (.udp frame)).wp (processUdpPacket cfg frame)
      (fun _ _ => True) (fun _ _ => True) [] := by
  rw [processUdpPacket_eq]
  refine ⟨trivial, fun timestamp _ => ?_⟩
  cases hopen : openDatagram frame with
  | error e => trivial
  | ok envelope =>
    have hopens := opens_of_openDatagram hopen
    cases envelope with
    | plain login password block =>
      -- the credentials are checked before the access list of the same login is asked for
      obtain ⟨hlogin0, hpassword0, hframe⟩ := hopens
      refine wp_processUdpBlock block timestamp fun needAck => ?_
      refine Monitor.wp_mono (fun _ h' hcred => ?_) (fun _ _ _ => trivial)
        (wp_authenticateUdp needAck _)
      intro h'' hsub topic hw
      have hcred' := hcred.2.mono (evidence_le hsub)
      exact ⟨login, _, hlogin0, hframe, .inl ⟨password, block, hpassword0, rfl, hcred'⟩, hw⟩
    | «sealed» login etp encrypted =>
      -- that the block was decrypted stands for the credentials
      obtain ⟨hlogin0, hframe⟩ := hopens
      refine ⟨trivial, fun r _ => ?_⟩
      cases r with
      | error e => trivial
      | ok block =>
        refine wp_processUdpBlock block timestamp fun needAck => ?_
        intro h' hsub topic hw
        have hdecrypted : (evidence h').decrypted login encrypted :=
          ⟨etp, block, hsub (List.mem_append_right _ (List.mem_singleton_self _))⟩
        exact ⟨login, encrypted, hlogin0, hframe, .inr hdecrypted, hw⟩

theorem wp_handler (hcluster : cfg.cluster = false) (peer : Peer) :
    (authorisedMonitor cfg peer).wp (peer.handler cfg) (fun _ _ => True) (fun _ _ => True) [] := by
  cases peer with
  | tcp addr tlsConfigured allowNoTls turns =>
    exact wp_handleTcpStream hcluster addr tlsConfigured allowNoTls turns
  | unix path turns => exact wp_handleUnixStream hcluster path turns
  | udp frame =>
    simp only [Peer.handler, handleUdpDatagram, Prog.bind_eq, Prog.bind_assoc]
    rw [Monitor.wp_bind, Monitor.wp_attempt]
    refine Monitor.wp_mono ?_ ?_ (wp_processUdpPacket frame)
    · intro a h _
      cases udpAckCode (.ok a) with
      | none => trivial
      | some code => exact ⟨trivial, fun _ _ => trivial⟩
    · intro e h _
      cases udpAckCode (.error e) with
      | none => trivial
      | some code => exact ⟨trivial, fun _ _ => trivial⟩

end

variable {m : SubMap}

def evidenceBefore (crypto : Crypto) (before : List (ServerEntry m)) (i : Nat) : Evidence where
  sent b := ∃ st n, ⟨i, st, ⟨.read n, .ok b⟩⟩ ∈ before
  verified login password := ∃ st, ⟨i, st, ⟨.authenticate login password, true⟩⟩ ∈ before ∧
    st.passwords.verify crypto login password = true
  decrypted login block := ∃ st tp plain,
    ⟨i, st, ⟨.authAndDecr block (udpKeyId login) tp, .ok plain⟩⟩ ∈ before ∧
      st.keys.authAndDecr crypto block (udpKeyId login) tp = some (.ok plain)
  acl login acl := ∃ st, ⟨i, st, ⟨.getAcl login, some acl⟩⟩ ∈ before ∧
    st.acls (aclName login) = some acl

theorem evidence_le_evidenceBefore {cfg : Config} {crypto : Crypto} {sha256 : Token → Digest}
    {before : List (ServerEntry m)} (i : Nat)
    (hexec : ∀ e ∈ before, ∃ st, ServerState.Exec cfg crypto sha256 e.world e.event.op
      e.event.resp st) :
    (evidence (System.history before i)).Le (evidenceBefore crypto before i) where
  sent b := fun ⟨n, hn⟩ => by
    obtain ⟨st, hmem⟩ := System.mem_history.mp hn
    exact ⟨st, n, hmem⟩
  verified login password := fun hv => by
    obtain ⟨st, hmem⟩ := System.mem_history.mp hv
    obtain ⟨_, _, hverify⟩ := hexec _ hmem
    exact ⟨st, hmem, hverify.symm⟩
  decrypted login block := fun ⟨tp, plain, hd⟩ => by
    obtain ⟨st, hmem⟩ := System.mem_history.mp hd
    obtain ⟨_, _, hdecr⟩ := hexec _ hmem
    exact ⟨st, tp, plain, hmem, hdecr⟩
  acl login acl := fun ha => by
    obtain ⟨st, hmem⟩ := System.mem_history.mp ha
    obtain ⟨_, _, hacl⟩ := hexec _ hmem
    exact ⟨st, hmem, hacl.symm⟩

/-- In every run of a server without the cluster feature: whoever's handler pushes a topic was
authenticated, and the access list in force for it lets this very topic be written. -/
theorem no_unauthorised_publish {cfg : Config} (hcluster : cfg.cluster = false) {crypto : Crypto}
    {sha256 : Token → Digest} {Init : ServerState m → Prop} {s : Server m}
    (hr : System.Reachable (Peer.handler cfg) (ServerState.Exec cfg crypto sha256) Reloads Init s)
    {before after : List (ServerEntry m)} {i : Nat} {st : ServerState m}
    {subscribers : List ServerClient} {priority : UInt8} {topic : Str} {message : Bytes}
    {timestamp : UInt64}
    (htrace : s.trace = before ++
      ⟨i, st, ⟨.pushToSubscribers subscribers priority topic message timestamp, ()⟩⟩ :: after) :
    ∃ peer rest, s.processes i = some ⟨peer, rest⟩ ∧
      Authorised cfg (evidenceBefore crypto before i) topic peer := by
  have hmem : ⟨i, st, ⟨.pushToSubscribers subscribers priority topic message timestamp, ()⟩⟩ ∈
      s.trace := htrace ▸ List.mem_append_right _ (List.mem_cons_self ..)
  obtain ⟨peer, rest, hprocess⟩ := System.started_of_mem_trace hr hmem
  refine ⟨peer, rest, hprocess, ?_⟩
  have haccepts := (System.accepts_history (wp_handler hcluster peer) hr hprocess
    (authorisedMonitor_admits cfg peer [] _)).1
  rw [htrace, System.history_split, Monitor.accepts_append, authorisedMonitor_after,
    List.nil_append] at haccepts
  have hauthorised : Authorised cfg (evidence (System.history before i)) topic peer :=
    haccepts.2.1
  have hle : (evidence (System.history before i)).Le (evidenceBefore crypto before i) :=
    evidence_le_evidenceBefore i fun e he =>
      System.exec_of_mem_trace hr (htrace ▸ List.mem_append_left _ he)
  exact hauthorised.mono hle

theorem no_unauthorised_publish_sample :
    ∃ (before : List (ServerEntry listMap)) (s : Server listMap) (peer : Peer)
      (rest : ServerProg Error Bool),
      System.Reachable (Peer.handler sampleConfig)
        (ServerState.Exec sampleConfig sampleCrypto Token.bytes) Reloads (· = sampleState) s ∧
      s.processes 0 = some ⟨peer, rest⟩ ∧
      Authorised sampleConfig (evidenceBefore sampleCrypto before 0) ['a'] peer := by
  have hinit : System.Reachable (Peer.handler sampleConfig)
      (ServerState.Exec sampleConfig sampleCrypto Token.bytes) Reloads (· = sampleState)
      (⟨sampleState, fun _ => none, []⟩ : Server listMap) := .init rfl
  have hspawn := System.Reachable.step hinit (.spawn 0
    (.udp (UdpClient.packetHeader authLoginPass ++ [0, 0, 1, 127, 97, 0, 1, 2])) rfl)
  have hcalls : (Peer.handler sampleConfig (.udp (UdpClient.packetHeader authLoginPass ++
      [0, 0, 1, 127, 97, 0, 1, 2]))).Calls DatagramOp :=
    Prog.Calls.bind (calls_handleUdpDatagram sampleConfig _) fun _ => trivial
  obtain ⟨s, hs, htrace, _⟩ := System.reachable_eval (exec_answer rfl 0) hcalls hspawn rfl
    (Function.update_self ..) []
  have hpushes : ⟨[sampleClient], 127, ['a'], [1, 2]⟩ ∈ pushes (Prog.eval
      (sampleState.answer sampleCrypto 0) (Peer.handler sampleConfig (.udp
        (UdpClient.packetHeader authLoginPass ++ [0, 0, 1, 127, 97, 0, 1, 2]))) []).1 := by
    decide +kernel
  obtain ⟨e, he, hpush⟩ := List.mem_filterMap.mp hpushes
  obtain ⟨timestamp, rfl⟩ := eq_of_pushOf hpush
  have hmem : (⟨0, sampleState, ⟨.pushToSubscribers [sampleClient] 127 ['a'] [1, 2] timestamp,
      ()⟩⟩ : ServerEntry listMap) ∈ s.trace := by
    rw [htrace]
    exact List.mem_append_right _ (List.mem_map_of_mem he)
  obtain ⟨before, after, hsplit⟩ := List.append_of_mem hmem
  obtain ⟨peer, rest, hprocess, hauthorised⟩ := no_unauthorised_publish rfl hs hsplit
  exact ⟨before, s, peer, rest, hs, hprocess, hauthorised⟩

end Psrt
