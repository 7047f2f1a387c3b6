import Psrt.Server.Calls
import Psrt.Server.Datagram
import Psrt.Server.State
import Psrt.Server.Stats
import Psrt.Lib.Concurrent

/-! Visitors without credentials: what the three entry points of the server grant them while
anonymous access is switched off. -/

namespace Psrt
open Wire Interaction

/-- A connection with the octets its peer sends, a datagram, or a request to the stats server. -/
inductive Visitor where
  | tcp (addr : Str) (tlsConfigured allowNoTls : Bool) (turns : Nat) (input : Bytes)
  | udp (frame : Bytes)
  | http (request : Stats.HttpRequest)

def Visitor.NoCredentials (base64 : Stats.Base64) : Visitor → Prop
  | tcp _ _ _ _ input => ∃ greeting rest, greeting.length = 3 ∧
      input = greeting ++ (leBytes 4 1 ++ ([0] ++ rest))
  | udp frame => ∃ block, openDatagram frame = .ok (.plain [] [] block)
  | http request => ¬ ∃ login password,
      Stats.credentials base64 request = .ok (some (login, password))

def receiving (Allowed : ServerOp → Prop) : Monitor ServerOp ServerOp.Resp Bytes where
  allowed _ := Allowed
  possible input
    | .read n, .ok b => b.length = n ∧ b <+: input
    | _, _ => True
  next input
    | .read n, .ok _ => input.drop n
    | _, _ => input

def Receives (input : Bytes) (h : List ServerEvent) : Prop :=
  (receiving fun _ => True).Admits input h

def Grants : ServerOp → Prop
  | .registerClient _ _ => True
  | .pushToSubscribers _ _ _ _ _ => True
  | .replicationPush _ _ _ _ => True
  | _ => False

section
variable {m : SubMap} (cfg : Config) (crypto : Crypto) (sha256 : Token → Digest)
  (base64 : Stats.Base64) (st : ServerState m)

/-- No run of the visitor's handler opens a session, publishes or serves a page; that of the stats
server is one in state `st`. -/
def Visitor.Refused : Visitor → Prop
  | tcp addr tlsConfigured allowNoTls turns input =>
    ∀ h q, Prog.Run (handleTcpStream cfg addr tlsConfigured allowNoTls turns) h q →
      Receives input h → ∀ e ∈ h, ¬ Grants e.op
  | udp frame => ∀ h q, Prog.Run (handleUdpDatagram cfg frame) h q → ∀ e ∈ h, ¬ Grants e.op
  | http request => ∀ h r st', Prog.Run (Stats.handler base64 request) h (.ret r) →
      System.Execs (ServerState.Exec cfg crypto sha256) st h st' → ∀ page, r.body ≠ .page page

def Stats.HttpRequest.OtherScheme (request : Stats.HttpRequest) : Prop :=
  request.authorization = none ∨ ∃ value auth scheme params,
    request.authorization = some value ∧ Stats.toStr value = some auth ∧
      splitFirst ' ' auth = (scheme, some params) ∧ Stats.isBasic scheme = false

def ServerState.AnonymousAdmin (st : ServerState m) : Prop :=
  ∃ acl, st.acls ['_'] = some acl ∧ acl.isAdmin = true

/-- Not a request for one of the pages, in a way that makes the stats server look at `_`, while `_`
is an administrator. -/
def Visitor.Guarded : Visitor → Prop
  | http request => ¬ (request.method = .get ∧ (Stats.pageAt request.path).isSome ∧
      request.OtherScheme ∧ st.AnonymousAdmin)
  | _ => True

section
variable {Allowed : ServerOp → Prop} {α : Type} {Q : α → Bytes → Prop} {E : Error → Bytes → Prop}

theorem wp_readExact_receiving (hread : ∀ n, Allowed (.read n)) {n : Nat} {b rest : Bytes}
    (hb : b.length = n) {k : Bytes → ServerProg Error α} (hE : ∀ e s, E e s)
    (hk : (receiving Allowed).wp (k b) Q E rest) :
    (receiving Allowed).wp ((readExact n).bind k) Q E (b ++ rest) := by
  refine ⟨hread n, fun r hr => ?_⟩
  cases r with
  | error e => exact hE e _
  | ok b' =>
    obtain ⟨hlen, tail, htail⟩ := hr
    obtain ⟨rfl, rfl⟩ := List.append_inj htail (hlen.trans hb.symm)
    have hrest : (receiving Allowed).next (b' ++ tail) (.read n) (.ok b') = tail :=
      List.drop_left' hb
    rw [hrest]
    exact hk

theorem wp_writeAll_receiving (hwrite : ∀ buf, Allowed (.write buf)) (buf : Bytes) {input : Bytes}
    {k : Unit → ServerProg Error α} (hE : ∀ e s, E e s)
    (hk : (receiving Allowed).wp (k ()) Q E input) :
    (receiving Allowed).wp ((writeAll buf).bind k) Q E input := by
  refine ⟨hwrite buf, fun r _ => ?_⟩
  cases r with
  | error e => exact hE e _
  | ok _ => exact hk

theorem wp_initTcpStream_receiving (hread : ∀ n, Allowed (.read n))
    (hwrite : ∀ buf, Allowed (.write buf)) (htls : Allowed .acceptTls) {greeting rest : Bytes}
    (hgreeting : greeting.length = 3) (tlsConfigured allowNoTls : Bool) :
    (receiving Allowed).wp (initTcpStream tlsConfigured allowNoTls) (fun _ s => s = rest)
      (fun _ _ => True) (greeting ++ rest) := by
  unfold initTcpStream
  rw [Prog.bind_eq]
  apply wp_readExact_receiving hread hgreeting (fun _ _ => trivial)
  cases streamType greeting with
  | error e => trivial
  | ok st =>
    have hreply : (receiving Allowed).wp ((writeAll (replyHeader greeting)).bind fun _ => .ret st)
        (fun _ s => s = rest) (fun _ _ => True) rest :=
      wp_writeAll_receiving hwrite _ (fun _ _ => trivial) rfl
    dsimp only [Prog.bind_eq, Prog.ofExcept_ok, Prog.ret_bind]
    split_ifs
    · exact hreply
    · trivial
    · refine ⟨htls, fun r _ => ?_⟩
      cases r with
      | error e => trivial
      | ok _ => exact hreply
    · trivial
    · trivial

theorem wp_readFrame_receiving (hread : ∀ n, Allowed (.read n)) {maxLength : Nat} {b rest : Bytes}
    (hmax : b.length ≤ maxLength) (hlt : b.length < 256 ^ 4) {k : Bytes → ServerProg Error α}
    (hE : ∀ e s, E e s) (hk : (receiving Allowed).wp (k b) Q E rest) :
    (receiving Allowed).wp ((readFrame (some maxLength)).bind k) Q E
      (leBytes 4 b.length ++ (b ++ rest)) := by
  unfold readFrame readFrameWith
  rw [Prog.bind_eq, Prog.bind_assoc]
  apply wp_readExact_receiving hread (length_leBytes 4 _) hE
  simp only [leNat_leBytes_of_lt hlt, Option.any_some, gt_iff_lt, Nat.not_lt.mpr hmax, decide_false,
    Bool.false_eq_true, if_false]
  exact wp_readExact_receiving hread rfl hE hk

end

theorem wp_handleTcpStream_anonymous (hgate : cfg.allowAnonymous = false) (addr : Str)
    (tlsConfigured allowNoTls : Bool) (turns : Nat) {greeting : Bytes}
    (hgreeting : greeting.length = 3) (rest : Bytes) :
    (receiving (¬ Grants ·)).wp (handleTcpStream cfg addr tlsConfigured allowNoTls turns)
      (fun _ _ => True) (fun _ _ => True) (greeting ++ (leBytes 4 1 ++ ([0] ++ rest))) := by
  have hread : ∀ n, ¬ Grants (.read n) := fun _ => id
  have hempty : strFromUtf8 [] = .ok [] := strFromUtf8_utf8 []
  have hdenied : authenticateTcp cfg [] [] addr =
      .throw (.access s!"anonymous login failed from {String.ofList addr}") := by
    simp only [authenticateTcp, hgate, List.isEmpty_nil, Bool.and_self, if_true,
      Bool.false_eq_true, if_false]
  unfold handleTcpStream
  rw [Prog.bind_eq, Monitor.wp_bind]
  refine Monitor.wp_mono ?_ (fun _ _ _ => trivial)
    (wp_initTcpStream_receiving hread (fun _ => id) id hgreeting tlsConfigured allowNoTls)
  rintro st s rfl
  split_ifs
  · refine ⟨id, fun r _ => ?_⟩
    cases r with
    | error e => trivial
    | ok _ => trivial
  · have hlen : ([0] : Bytes).length = 1 := rfl
    rw [Prog.bind_eq, ← hlen]
    apply wp_readFrame_receiving hread (by decide) (by decide) (fun _ _ => trivial)
    have hsplit : splitFirst (0 : UInt8) [0] = ([], some []) := rfl
    simp only [hsplit, hempty, hdenied, Prog.bind_eq, Prog.ofExcept_ok, Prog.ret_bind,
      Prog.throw_bind, Monitor.wp_throw]

theorem calls_handleUdpDatagram_anonymous (hgate : cfg.allowAnonymous = false)
    {frame block : Bytes} (hopen : openDatagram frame = .ok (.plain [] [] block)) :
    (handleUdpDatagram cfg frame).Calls (¬ Grants ·) := by
  have hdenied : ∀ needAck, authenticateUdp cfg [] (some []) needAck =
      .throw (.access "anonymous access failed", needAck) := by
    intro needAck
    simp only [authenticateUdp, hgate, List.isEmpty_nil, Bool.and_self, if_true,
      Bool.false_eq_true, if_false]
  have hpacket : (processUdpPacket cfg frame).Calls (¬ Grants ·) := by
    rw [processUdpPacket_eq, hopen]
    refine ⟨id, fun timestamp => ?_⟩
    simp only [Prog.ofExcept_ok, Prog.ret_mapError, Prog.ret_bind, processEnvelope,
      processUdpBlock_eq]
    cases parseBlock block with
    | error e => trivial
    | ok b =>
      simp only [Prog.ofExcept_ok, Prog.ret_bind, publishUdp, hdenied, Prog.bind_eq,
        Prog.throw_bind]
      trivial
  unfold handleUdpDatagram
  refine Prog.Calls.bind hpacket.attempt fun result => ?_
  cases udpAckCode result with
  | none => trivial
  | some code => exact Prog.Calls.bind (Prog.calls_op id) fun _ => trivial

theorem basicParams_cases (params : Str) :
    (∃ login password, Stats.basicParams base64 params = .ok (some (login, password))) ∨
      ∃ content, Stats.basicParams base64 params = .error (Stats.response 400 content) := by
  unfold Stats.basicParams
  cases base64 params with
  | error e => exact .inr ⟨_, rfl⟩
  | ok v =>
    dsimp only
    cases fromUtf8 v with
    | none => exact .inr ⟨_, rfl⟩
    | some s =>
      dsimp only
      cases splitFirst ':' s with
      | mk username rest =>
        cases rest with
        | none => exact .inr ⟨_, rfl⟩
        | some password => exact .inl ⟨username, password, rfl⟩

theorem credentials_cases (request : Stats.HttpRequest) :
    (Stats.credentials base64 request = .ok none ∧ request.OtherScheme) ∨
      (∃ login password, Stats.credentials base64 request = .ok (some (login, password))) ∨
      ∃ content, Stats.credentials base64 request = .error (Stats.response 400 content) := by
  unfold Stats.credentials
  cases hvalue : request.authorization with
  | none => exact .inl ⟨rfl, .inl hvalue⟩
  | some value =>
    dsimp only
    cases hauth : Stats.toStr value with
    | none => exact .inr (.inr ⟨_, rfl⟩)
    | some auth =>
      dsimp only
      cases hsplit : splitFirst ' ' auth with
      | mk scheme rest =>
        cases rest with
        | none => exact .inr (.inr ⟨_, rfl⟩)
        | some params =>
          dsimp only
          split_ifs with hbasic
          · exact .inr (basicParams_cases base64 params)
          · have hother : Stats.isBasic scheme = false := Bool.eq_false_of_not_eq_true hbasic
            exact .inl ⟨rfl, .inr ⟨value, auth, scheme, params, hvalue, hauth, hsplit, hother⟩⟩

theorem credentials_of_otherScheme {request : Stats.HttpRequest} (h : request.OtherScheme) :
    Stats.credentials base64 request = .ok none := by
  rcases h with hnone | ⟨value, auth, scheme, params, hvalue, hauth, hsplit, hother⟩
  · simp only [Stats.credentials, hnone]
  · simp only [Stats.credentials, hvalue, hauth, hsplit, hother, Bool.false_eq_true, if_false]

theorem isSome_pageAt_iff (path : String) :
    (Stats.pageAt path).isSome ↔ ∃ page, (Stats.serve path).body = .page page := by
  unfold Stats.serve
  cases hpage : Stats.pageAt path with
  | none => exact iff_of_false Bool.false_ne_true fun ⟨_, h⟩ => by cases h
  | some found => exact iff_of_true rfl ⟨found.1, rfl⟩

section
variable {request : Stats.HttpRequest}

theorem refused_of_ret {r : Stats.HttpResponse} (hr : Stats.handler base64 request = .ret r)
    (hbody : ∀ page, r.body ≠ .page page) :
    Visitor.Refused cfg crypto sha256 base64 st (.http request) := by
  intro h r' st' hrun _
  rw [hr] at hrun
  cases hrun with
  | nil => exact hbody
  | cons hs _ => cases hs

theorem handler_eq_of_none (hget : request.method = .get)
    (hnone : Stats.credentials base64 request = .ok none) :
    Stats.handler base64 request = .call (.getAcl ['_']) fun acl =>
      .ret (if acl.any Acl.isAdmin then Stats.serve request.path else Stats.unauthorized) := by
  simp only [Stats.handler, hget, hnone, if_true]
  rfl

theorem refused_iff_of_none (hget : request.method = .get)
    (hnone : Stats.credentials base64 request = .ok none) :
    Visitor.Refused cfg crypto sha256 base64 st (.http request) ↔ ∀ page,
      (if (st.acls ['_']).any Acl.isAdmin then Stats.serve request.path
        else Stats.unauthorized).body ≠ .page page := by
  have hhandler := handler_eq_of_none base64 hget hnone
  constructor
  · intro hrefused
    apply hrefused [⟨.getAcl ['_'], st.acls ['_']⟩] _ st ?_ (.cons ⟨rfl, rfl⟩ (.nil st))
    rw [hhandler]
    exact .call _ (.nil _)
  · intro hpage h r st' hrun hexec
    rw [hhandler] at hrun
    rcases Prog.run_call_iff.mp hrun with ⟨_, heq⟩ | ⟨acl, h', rfl, hrest⟩
    · cases heq
    · cases hexec with
      | cons he _ =>
        cases hrest with
        | nil =>
          obtain ⟨_, rfl⟩ := he
          exact hpage
        | cons hs _ => cases hs

theorem refused_http_iff
    (hno : ¬ ∃ login password, Stats.credentials base64 request = .ok (some (login, password))) :
    Visitor.Refused cfg crypto sha256 base64 st (.http request) ↔
      Visitor.Guarded st (.http request) := by
  by_cases hget : request.method = .get
  · rcases credentials_cases base64 request with ⟨hnone, hother⟩ | hbasic | ⟨content, herror⟩
    · rw [refused_iff_of_none cfg crypto sha256 base64 st hget hnone]
      constructor
      · rintro hpage ⟨_, hfound, _, acl, hacl, hadmin⟩
        obtain ⟨page, hserved⟩ := (isSome_pageAt_iff request.path).mp hfound
        rw [hacl, Option.any_some, hadmin, if_pos rfl] at hpage
        exact hpage page hserved
      · intro hguard page hserved
        split_ifs at hserved with hany
        · obtain ⟨acl, hacl, hadmin⟩ := (Option.any_eq_true _ _).mp hany
          exact hguard ⟨hget, (isSome_pageAt_iff request.path).mpr ⟨page, hserved⟩, hother, acl,
            hacl, hadmin⟩
        · cases hserved
    · exact absurd hbasic hno
    · have hhandler : Stats.handler base64 request = .ret (Stats.response 400 content) := by
        simp only [Stats.handler, hget, herror, if_true]
      refine iff_of_true (refused_of_ret cfg crypto sha256 base64 st hhandler ?_) ?_
      · exact fun page h => by cases h
      · rintro ⟨_, _, hother, _⟩
        rw [credentials_of_otherScheme base64 hother] at herror
        cases herror
  · have hhandler : Stats.handler base64 request = .ret (Stats.httpError 405) := by
      simp only [Stats.handler, hget, if_false]
    refine iff_of_true (refused_of_ret cfg crypto sha256 base64 st hhandler ?_) ?_
    · exact fun page h => by cases h
    · exact fun h => hget h.1

end

theorem not_grants_of_run {input : Bytes} {p q : ServerProg Error Bool} {h : List ServerEvent}
    (hwp : (receiving (¬ Grants ·)).wp p (fun _ _ => True) (fun _ _ => True) input)
    (hrun : Prog.Run p h q) (hreceives : Receives input h) : ∀ e ∈ h, ¬ Grants e.op := by
  have hadmits : ∀ input h, Receives input h → (receiving (¬ Grants ·)).Admits input h := by
    intro input h
    induction h generalizing input with
    | nil => exact id
    | cons e h ih => exact fun hr => ⟨hr.1, ih _ hr.2⟩
  exact Monitor.op_of_accepts (fun _ _ => id)
    (Monitor.wp_run hwp hrun (hadmits input h hreceives)).1

/-- While anonymous access is switched off, a visitor without credentials is granted nothing, unless
the stats server finds the access list `_` to be an administrator's. -/
theorem anonymous_gate_iff (hgate : cfg.allowAnonymous = false) {visitor : Visitor}
    (hno : visitor.NoCredentials base64) :
    visitor.Refused cfg crypto sha256 base64 st ↔ visitor.Guarded st := by
  cases visitor with
  | tcp addr tlsConfigured allowNoTls turns input =>
    refine iff_of_true ?_ trivial
    obtain ⟨greeting, rest, hgreeting, rfl⟩ := hno
    intro h q hrun hreceives
    exact not_grants_of_run (wp_handleTcpStream_anonymous cfg hgate addr tlsConfigured allowNoTls
      turns hgreeting rest) hrun hreceives
  | udp frame =>
    refine iff_of_true ?_ trivial
    obtain ⟨block, hopen⟩ := hno
    intro h q hrun
    exact (calls_handleUdpDatagram_anonymous cfg hgate hopen).of_run hrun
  | http request => exact refused_http_iff cfg crypto sha256 base64 st hno

end

def gatedConfig : Config := { sampleConfig with allowAnonymous := false }

def statusRequest : Stats.HttpRequest := ⟨.get, "/status", none⟩

theorem statusRequest_noCredentials (base64 : Stats.Base64) :
    (Visitor.http statusRequest).NoCredentials base64 := by
  rintro ⟨login, password, h⟩
  cases h

theorem anonymous_gate_sample :
    (Visitor.http statusRequest).Refused gatedConfig sampleCrypto Token.bytes (fun _ => .ok [])
      { sampleState with acls := fun _ => none } := by
  apply (anonymous_gate_iff gatedConfig sampleCrypto Token.bytes (fun _ => .ok []) _ rfl
    (statusRequest_noCredentials _)).mpr
  rintro ⟨_, _, _, acl, hacl, _⟩
  cases hacl

/-- With `_` an administrator, the status page is served to anybody. -/
theorem anonymous_status_page :
    gatedConfig.allowAnonymous = false ∧
      (Visitor.http statusRequest).NoCredentials (fun _ => .ok []) ∧
      ¬ (Visitor.http statusRequest).Refused gatedConfig sampleCrypto Token.bytes (fun _ => .ok [])
        sampleState := by
  refine ⟨rfl, statusRequest_noCredentials _, fun hrefused => ?_⟩
  have hget : statusRequest.method = .get := rfl
  have hpages := (refused_iff_of_none gatedConfig sampleCrypto Token.bytes (fun _ => .ok [])
    sampleState hget rfl).mp hrefused
  exact hpages .status rfl

end Psrt
