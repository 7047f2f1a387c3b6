import Psrt.Client.Connect
import Psrt.Lib.Network

/-! What a connecting client has sent and read of each of its streams, wherever its `connect` stands. -/

namespace Psrt.Client
open Wire Interaction

def port (link : Link) : Port ConnectOp ConnectOp.Resp UInt8 where
  offer
    | .write l buf => if l = link then buf else []
    | _ => []
  take
    | .read l _, .ok b => if l = link then b else []
    | _, _ => []
  Broke
    | .write l _, .error _ => l = link
    | .read l _, .error _ => l = link
    | _, _ => False

def tokenOf (e : ConnectEvent) : List Bytes :=
  match e with
  | ⟨.read link n, .ok b⟩ => if link = .control ∧ n = 32 then [b] else []
  | _ => []

def Exact : (o : ConnectOp) → o.Resp → Prop
  | .read _ n, r => ∀ b, r = .ok b → b.length = n
  | _, _ => True

section
variable (link : Link)

theorem stopsOn_write (l : Link) (buf : Bytes) : (write l buf).StopsOn (port link).Broke := by
  intro r
  refine ⟨fun hbroke => ?_, Prog.stopsOn_ofExcept r⟩
  cases r with
  | ok a => exact hbroke.elim
  | error e => exact ⟨e, rfl⟩

theorem stopsOn_read (l : Link) (n : Nat) : (read l n).StopsOn (port link).Broke := by
  intro r
  refine ⟨fun hbroke => ?_, Prog.stopsOn_ofExcept r⟩
  cases r with
  | ok a => exact hbroke.elim
  | error e => exact ⟨e, rfl⟩

theorem stopsOn_waitSocket (config : Config) (turns : Nat) :
    (waitSocket config turns).StopsOn (port link).Broke := by
  have hturn : (waitSocketTurn config).StopsOn (port link).Broke := by
    refine .call (fun _ => id) fun found => ?_
    rw [Prog.ret_bind]
    split_ifs
    · trivial
    · refine .call (fun _ => id) fun _ => .call (fun _ => id) fun elapsed => ?_
      rw [Prog.ret_bind]
      split_ifs
      · trivial
      · trivial
  have hloop : (Prog.loop (waitSocketTurn config) turns).StopsOn (port link).Broke := by
    induction turns with
    | zero => trivial
    | succ n ih =>
      refine hturn.bind fun r => ?_
      cases r with
      | some a => trivial
      | none => exact ih
  unfold waitSocket
  split_ifs
  · refine .call (fun _ => id) fun found => ?_
    rw [Prog.ret_bind]
    split_ifs
    · trivial
    · exact hloop
  · trivial

theorem stopsOn_openStream (config : Config) (l : Link) :
    (openStream config l).StopsOn (port link).Broke := by
  unfold openStream
  split_ifs
  · exact .call (fun _ => id) fun r => (Prog.stopsOn_ofExcept r).bind fun _ =>
      stopsOn_write link l _
  · refine .call (fun _ => id) fun r => (Prog.stopsOn_ofExcept r).bind fun _ => ?_
    refine .call (fun _ => id) fun r => (Prog.stopsOn_ofExcept r).bind fun _ => ?_
    refine (stopsOn_write link l _).bind fun _ => ?_
    refine .call (fun _ => id) fun r => (Prog.stopsOn_ofExcept r).bind fun _ => ?_
    exact .call (fun _ => id) fun r => Prog.stopsOn_ofExcept r
  · refine .call (fun _ => id) fun r => (Prog.stopsOn_ofExcept r).bind fun _ => ?_
    refine .call (fun _ => id) fun r => (Prog.stopsOn_ofExcept r).bind fun _ => ?_
    exact stopsOn_write link l _

theorem stopsOn_checkReply (l : Link) : (checkReply l).StopsOn (port link).Broke := by
  refine (stopsOn_read link l 2).bind fun buf => ?_
  split_ifs
  · trivial
  · refine (stopsOn_read link l 2).bind fun buf => ?_
    split_ifs
    · trivial
    · trivial

theorem stopsOn_connectControl (config : Config) (turns : Nat) :
    (connectControl config turns).StopsOn (port link).Broke := by
  refine (stopsOn_waitSocket link config turns).bind fun _ =>
    (stopsOn_openStream link config .control).bind fun _ =>
      (stopsOn_checkReply link .control).bind fun _ => (stopsOn_write link .control _).bind fun _ => ?_
  intro r
  cases r with
  | ok token => exact ⟨fun hbroke => hbroke.elim, trivial⟩
  | error e => exact ⟨fun _ => ⟨_, rfl⟩, trivial⟩

theorem stopsOn_connectData (config : Config) (token : Bytes) :
    (connectData config token).StopsOn (port link).Broke := by
  unfold connectData
  split_ifs
  · refine (stopsOn_openStream link config .data).bind fun _ =>
      (stopsOn_checkReply link .data).bind fun _ => (stopsOn_write link .data _).bind fun _ =>
        (stopsOn_write link .data _).bind fun _ => (stopsOn_read link .data 1).bind fun response => ?_
    split_ifs
    · trivial
    · trivial
  · trivial

theorem stopsOn_connect (config : Config) (turns : Nat) :
    (connect config turns).StopsOn (port link).Broke := by
  have hca : (addCa config).StopsOn (port link).Broke := by
    unfold addCa
    split_ifs
    · cases config.tlsCa with
      | none => trivial
      | some ca => exact .call (fun _ => id) fun r => Prog.stopsOn_ofExcept r
    · trivial
  exact hca.bind fun _ => (stopsOn_connectControl link config turns).bind fun token =>
    (stopsOn_connectData link config token).bind fun _ => trivial

end

structure Trail where
  offered : Link → Bytes
  taken : Link → Bytes
  tokens : List Bytes

namespace Trail

def start : Trail := ⟨fun _ => [], fun _ => [], []⟩

def next (s : Trail) (o : ConnectOp) (r : o.Resp) : Trail where
  offered link := s.offered link ++ (port link).offer o
  taken link := s.taken link ++ (port link).take o r
  tokens := s.tokens ++ tokenOf ⟨o, r⟩

end Trail

section
variable {s : Trail} {l : Link}

theorem offered_write (buf : Bytes) (r : Except Error Unit) (l' : Link) :
    (s.next (.write l buf) r).offered l' = s.offered l' ++ if l = l' then buf else [] := rfl

theorem offered_read (n : Nat) (r : Except Error Bytes) (l' : Link) :
    (s.next (.read l n) r).offered l' = s.offered l' := List.append_nil _

theorem taken_write (buf : Bytes) (r : Except Error Unit) (l' : Link) :
    (s.next (.write l buf) r).taken l' = s.taken l' := List.append_nil _

theorem taken_read (n : Nat) (b : Bytes) (l' : Link) :
    (s.next (.read l n) (.ok b)).taken l' = s.taken l' ++ if l = l' then b else [] := rfl

theorem tokens_write (buf : Bytes) (r : Except Error Unit) :
    (s.next (.write l buf) r).tokens = s.tokens := List.append_nil _

theorem tokens_read {n : Nat} (hn : ¬ (l = .control ∧ n = 32)) (b : Bytes) :
    (s.next (.read l n) (.ok b)).tokens = s.tokens := by
  simp only [Trail.next, tokenOf, if_neg hn, List.append_nil]

end

def Link.reply (link : Link) : Bytes := link.header ++ leBytes 2 protocolVersion

def controlScript (config : Config) : Bytes := greeting config .control ++ authBuf config

def dataScript (config : Config) (token : Bytes) : Bytes :=
  greeting config .data ++ (token ++ [UInt8.ofNat (timeoutSecs config)])

theorem toNat_authLength {config : Config} (hfits : (authText config).length < 2 ^ 32) :
    (authLength config).toNat = (authText config).length := by
  unfold authText at hfits ⊢
  unfold authLength
  rw [List.length_append, List.length_cons] at hfits ⊢
  rw [UInt32.toNat_add, UInt32.toNat_add, lenU32_toNat, lenU32_toNat, UInt32.toNat_one]
  omega

/-- A token is what follows the server's answer on the control stream, and the data stream is
opened with it. -/
structure Keeps (config : Config) (s : Trail) : Prop where
  control : s.offered .control <+: controlScript config
  tokens : ∀ token ∈ s.tokens, token.length = 32 ∧ s.taken .control = Link.control.reply ++ token
  data : s.offered .data = [] ∨
    ∃ token ∈ s.tokens, s.offered .data <+: dataScript config token

abbrev keeper (config : Config) : Monitor ConnectOp ConnectOp.Resp Trail :=
  Monitor.keeps (fun _ => Exact) Trail.next (Keeps config)

section
variable {config : Config} {s : Trail} {α : Type} {Q : α → Trail → Prop}

def Quiet : ConnectOp → Prop
  | .write _ _ => False
  | .read _ _ => False
  | _ => True

theorem next_of_quiet {o : ConnectOp} (ho : Quiet o) (r : o.Resp) : s.next o r = s := by
  have hparts : s.next o r = ⟨fun link => s.offered link ++ [], fun link => s.taken link ++ [],
      s.tokens ++ []⟩ := by
    cases o with
    | write l buf => exact ho.elim
    | read l n => exact ho.elim
    | _ => rfl
  rw [hparts]
  simp only [List.append_nil]

theorem wp_quiet {o : ConnectOp} (hs : Keeps config s) {f : o.Resp → ConnectProg α}
    (hf : ∀ r, (keeper config).wp (f r) Q (fun _ _ => True) s) (ho : Quiet o) :
    (keeper config).wp (.call o f) Q (fun _ _ => True) s := by
  apply Monitor.wp_keeps_call
  intro r _
  rw [next_of_quiet ho]
  exact ⟨hs, hf r⟩

theorem wp_ofExcept {β : Type} {r : Except Error β} {f : β → ConnectProg α}
    (hf : ∀ a, (keeper config).wp (f a) Q (fun _ _ => True) s) :
    (keeper config).wp ((Prog.ofExcept r).bind f) Q (fun _ _ => True) s := by
  cases r with
  | error e => trivial
  | ok a => exact hf a

theorem wp_write {link : Link} {buf : Bytes}
    (hs : Keeps config (s.next (.write link buf) (.ok ()))) {f : Unit → ConnectProg α}
    (hf : (keeper config).wp (f ()) Q (fun _ _ => True) (s.next (.write link buf) (.ok ()))) :
    (keeper config).wp ((write link buf).bind f) Q (fun _ _ => True) s := by
  apply Monitor.wp_keeps_call
  intro r _
  cases r with
  | error e => exact ⟨hs, trivial⟩
  | ok a => exact ⟨hs, hf⟩

theorem wp_read {link : Link} {n : Nat} (hs : Keeps config s) {f : Bytes → ConnectProg α}
    (hf : ∀ b, b.length = n → Keeps config (s.next (.read link n) (.ok b)) ∧
      (keeper config).wp (f b) Q (fun _ _ => True) (s.next (.read link n) (.ok b))) :
    (keeper config).wp ((read link n).bind f) Q (fun _ _ => True) s := by
  apply Monitor.wp_keeps_call
  intro r hr
  cases r with
  | error e =>
    have hsame : s.next (.read link n) (.error e) = s := by
      unfold Trail.next
      simp only [port, tokenOf, List.append_nil]
    rw [hsame]
    exact ⟨hs, trivial⟩
  | ok b => exact hf b (hr b rfl)

theorem wp_openStream {link : Link} (hs : Keeps config s)
    (hsent : Keeps config (s.next (.write link (greeting config link)) (.ok ())))
    {f : Unit → ConnectProg α}
    (hf : (keeper config).wp (f ()) Q (fun _ _ => True)
      (s.next (.write link (greeting config link)) (.ok ()))) :
    (keeper config).wp ((openStream config link).bind f) Q (fun _ _ => True) s := by
  unfold openStream
  split_ifs
  · simp only [Prog.bind_eq, Prog.op_bind, Prog.call_bind, Prog.bind_assoc]
    exact wp_quiet hs (fun r => wp_ofExcept fun _ => wp_write hsent hf) trivial
  · simp only [Prog.bind_eq, Prog.op_bind, Prog.call_bind, Prog.bind_assoc]
    refine wp_quiet hs (fun r => wp_ofExcept fun _ => ?_) trivial
    refine wp_quiet hs (fun r => wp_ofExcept fun _ => ?_) trivial
    refine wp_write hsent ?_
    refine wp_quiet hsent (fun r => wp_ofExcept fun _ => ?_) trivial
    exact wp_quiet hsent (fun r => wp_ofExcept fun _ => hf) trivial
  · simp only [Prog.bind_eq, Prog.op_bind, Prog.call_bind, Prog.bind_assoc]
    refine wp_quiet hs (fun r => wp_ofExcept fun _ => ?_) trivial
    refine wp_quiet hs (fun r => wp_ofExcept fun _ => ?_) trivial
    exact wp_write hsent hf

theorem wp_waitSocket {turns : Nat} (hs : Keeps config s) {f : Unit → ConnectProg α}
    (hf : (keeper config).wp (f ()) Q (fun _ _ => True) s) :
    (keeper config).wp ((waitSocket config turns).bind f) Q (fun _ _ => True) s := by
  have hturn : (keeper config).wp (waitSocketTurn config) (fun _ s' => s' = s) (fun _ _ => True) s := by
    refine wp_quiet hs (fun found => ?_) trivial
    rw [Prog.ret_bind]
    split_ifs
    · rfl
    · refine wp_quiet hs (fun _ => wp_quiet hs (fun elapsed => ?_) trivial) trivial
      rw [Prog.ret_bind]
      split_ifs
      · trivial
      · rfl
  have hwait : (keeper config).wp (waitSocket config turns) (fun _ s' => s' = s) (fun _ _ => True) s := by
    unfold waitSocket
    split_ifs
    · refine wp_quiet hs (fun found => ?_) trivial
      rw [Prog.ret_bind]
      split_ifs
      · rfl
      · refine Monitor.wp_loop (I := fun s' => s' = s) ?_ turns rfl
        rintro _ rfl
        refine Monitor.wp_mono ?_ (fun _ _ _ => trivial) hturn
        rintro (_ | _) s' rfl
        · rfl
        · rfl
    · rfl
  rw [Monitor.wp_bind]
  refine Monitor.wp_mono ?_ (fun _ _ _ => trivial) hwait
  rintro _ s' rfl
  exact hf

theorem wp_checkReply {link : Link} (hs : Keeps config s) (hfree : link = .control → s.tokens = [])
    {f : Unit → ConnectProg α}
    (hf : ∀ s', s' = (s.next (.read link 2) (.ok link.header)).next (.read link 2)
      (.ok (leBytes 2 protocolVersion)) → Keeps config s' →
        (keeper config).wp (f ()) Q (fun _ _ => True) s') :
    (keeper config).wp ((checkReply link).bind f) Q (fun _ _ => True) s := by
  have hsame : ∀ {s : Trail} (b : Bytes), (s.next (.read link 2) (.ok b)).tokens = s.tokens :=
    fun b => tokens_read (fun h => absurd h.2 (by decide)) b
  have hread : ∀ {s : Trail} (b : Bytes), Keeps config s → (link = .control → s.tokens = []) →
      Keeps config (s.next (.read link 2) (.ok b)) := by
    intro s b hs hfree
    refine ⟨?_, fun token htoken => ?_, ?_⟩
    · rw [offered_read]
      exact hs.control
    · rw [hsame] at htoken
      cases link with
      | control =>
        rw [hfree rfl] at htoken
        exact absurd htoken List.not_mem_nil
      | data =>
        rw [taken_read, if_neg Link.noConfusion, List.append_nil]
        exact hs.tokens token htoken
    · rw [offered_read, hsame]
      exact hs.data
  unfold checkReply
  simp only [Prog.bind_eq, Prog.bind_assoc]
  refine wp_read hs fun header _ => ⟨hread header hs hfree, ?_⟩
  split_ifs with hheader
  · trivial
  · rw [ne_eq, not_not] at hheader
    have hfirst := hread header hs hfree
    have hfree' : link = .control → (s.next (.read link 2) (.ok header)).tokens = [] := by
      intro hlink
      rw [hsame]
      exact hfree hlink
    simp only [Prog.bind_assoc]
    refine wp_read hfirst fun version hversion => ⟨hread version hfirst hfree', ?_⟩
    split_ifs with hsupported
    · trivial
    · rw [ne_eq, not_not] at hsupported
      have hbytes : version = leBytes 2 protocolVersion := by
        rw [← hsupported, ← hversion, leBytes_leNat]
      refine hf _ ?_ (hread version hfirst hfree')
      rw [hheader, hbytes]

structure Opening (config : Config) (token sent got : Bytes) (s : Trail) : Prop where
  keeps : Keeps config s
  tokens : s.tokens = [token]
  control : s.offered .control = controlScript config
  sent : s.offered .data = sent
  got : s.taken .data = got

namespace Opening
variable {token sent got : Bytes}

theorem write (h : Opening config token sent got s) (buf : Bytes) (r : Except Error Unit)
    (hsent : sent ++ buf <+: dataScript config token) :
    Opening config token (sent ++ buf) got (s.next (.write .data buf) r) := by
  have htokens : (s.next (.write .data buf) r).tokens = [token] := (tokens_write ..).trans h.tokens
  have hcontrol : (s.next (.write .data buf) r).offered .control = s.offered .control :=
    List.append_nil _
  have hdata : (s.next (.write .data buf) r).offered .data = sent ++ buf := by
    rw [offered_write, if_pos rfl, h.sent]
  refine ⟨⟨?_, fun t ht => ?_, .inr ⟨token, ?_, ?_⟩⟩, htokens, ?_, hdata, ?_⟩
  · rw [hcontrol]
    exact h.keeps.control
  · rw [tokens_write] at ht
    rw [taken_write]
    exact h.keeps.tokens t ht
  · rw [htokens]
    exact List.mem_singleton_self token
  · rw [hdata]
    exact hsent
  · rw [hcontrol, h.control]
  · rw [taken_write, h.got]

theorem read (h : Opening config token sent got s) (n : Nat) (b : Bytes) :
    Opening config token sent (got ++ b) (s.next (.read .data n) (.ok b)) := by
  have htokens : (s.next (.read .data n) (.ok b)).tokens = s.tokens :=
    tokens_read (fun h => Link.noConfusion h.1) b
  have htaken : (s.next (.read .data n) (.ok b)).taken .control = s.taken .control :=
    List.append_nil _
  refine ⟨⟨?_, fun t ht => ?_, ?_⟩, htokens.trans h.tokens, ?_, ?_, ?_⟩
  · rw [offered_read]
    exact h.keeps.control
  · rw [htokens] at ht
    rw [htaken]
    exact h.keeps.tokens t ht
  · rw [offered_read, htokens]
    exact h.keeps.data
  · rw [offered_read, h.control]
  · rw [offered_read, h.sent]
  · rw [taken_read, if_pos rfl, h.got]

end Opening

theorem wp_connectControl {turns : Nat} {f : Bytes → ConnectProg α}
    (hf : ∀ token s, Opening config token [] [] s →
      (keeper config).wp (f token) Q (fun _ _ => True) s) :
    (keeper config).wp ((connectControl config turns).bind f) Q (fun _ _ => True) .start := by
  have hstart : Keeps config .start :=
    ⟨List.nil_prefix, fun _ h => absurd h List.not_mem_nil, .inl rfl⟩
  have hgreeted : Keeps config
      (Trail.start.next (.write .control (greeting config .control)) (.ok ())) := by
    refine ⟨List.prefix_append _ _, fun token htoken => ?_, .inl rfl⟩
    rw [tokens_write] at htoken
    exact absurd htoken List.not_mem_nil
  simp only [connectControl, authenticate, Prog.bind_eq, Prog.bind_assoc]
  refine wp_waitSocket hstart (wp_openStream hstart hgreeted ?_)
  refine wp_checkReply hgreeted (fun _ => rfl) fun s heq hs => ?_
  have htokens : s.tokens = [] := by
    subst heq
    rfl
  have hsent : (s.next (.write .control (authBuf config)) (.ok ())).offered .control =
      controlScript config := by
    subst heq
    rfl
  have htaken : s.taken .control = Link.control.reply := by
    subst heq
    rfl
  have hunopened : (s.next (.write .control (authBuf config)) (.ok ())).offered .data = [] := by
    subst heq
    rfl
  have hunread : (s.next (.write .control (authBuf config)) (.ok ())).taken .data = [] := by
    subst heq
    rfl
  have hasked : Keeps config (s.next (.write .control (authBuf config)) (.ok ())) := by
    refine ⟨?_, fun token htoken => ?_, .inl hunopened⟩
    · exact hsent.symm ▸ List.prefix_rfl
    · rw [tokens_write, htokens] at htoken
      exact absurd htoken List.not_mem_nil
  refine wp_write hasked ?_
  rw [Prog.call_bind]
  refine Monitor.wp_keeps_call fun r hr => ?_
  cases r with
  | error e =>
    have hsame : ∀ s : Trail, s.next (.read .control 32) (.error e) = s := by
      intro s
      unfold Trail.next
      simp only [port, tokenOf, List.append_nil]
    rw [hsame]
    exact ⟨hasked, trivial⟩
  | ok token =>
    have hgiven : ((s.next (.write .control (authBuf config)) (.ok ())).next (.read .control 32)
        (.ok token)).tokens = [token] := by
      change (s.next (.write .control (authBuf config)) (.ok ())).tokens ++ [token] = [token]
      rw [tokens_write, htokens, List.nil_append]
    have hkeeps : Keeps config ((s.next (.write .control (authBuf config)) (.ok ())).next
        (.read .control 32) (.ok token)) := by
      refine ⟨?_, fun t ht => ?_, .inl ?_⟩
      · rw [offered_read]
        exact hasked.control
      · rw [hgiven, List.mem_singleton] at ht
        subst ht
        rw [taken_read, taken_write, if_pos rfl, htaken]
        exact ⟨hr t rfl, rfl⟩
      · rw [offered_read, hunopened]
    refine ⟨hkeeps, hf token _ ⟨hkeeps, hgiven, ?_, ?_, ?_⟩⟩
    · rw [offered_read, hsent]
    · rw [offered_read, hunopened]
    · rw [taken_read, if_neg Link.noConfusion, List.append_nil, hunread]

/-- What connecting leaves behind: one token, both scripts sent in full, the data stream taken over. -/
def Done (config : Config) (s : Trail) : Prop :=
  ∃ token, s.tokens = [token] ∧ s.offered .control = controlScript config ∧
    (config.needDataStream = true → s.offered .data = dataScript config token ∧
      s.taken .data = Link.data.reply ++ [responseOk])

theorem wp_connectData {token : Bytes} (hs : Opening config token [] [] s) :
    (keeper config).wp (connectData config token) (fun _ => Done config) (fun _ _ => True) s := by
  unfold connectData
  split_ifs with hneed
  · simp only [Prog.bind_eq]
    have hgreeted := hs.write (greeting config .data) (.ok ()) (List.prefix_append ..)
    refine wp_openStream hs.keeps hgreeted.keeps ?_
    refine wp_checkReply hgreeted.keeps Link.noConfusion fun s₁ heq _ => ?_
    have hreplied : Opening config token (greeting config .data) Link.data.reply s₁ := by
      have hboth := (hgreeted.read 2 Link.data.header).read 2 (leBytes 2 protocolVersion)
      rw [← heq] at hboth
      exact hboth
    have htoken := hreplied.write token (.ok ())
      ((List.prefix_append_right_inj _).mpr (List.prefix_append ..))
    have hscript : greeting config .data ++ token ++ [UInt8.ofNat (timeoutSecs config)] =
        dataScript config token := List.append_assoc ..
    have htimeout := htoken.write [UInt8.ofNat (timeoutSecs config)] (.ok ())
      (hscript ▸ List.prefix_rfl)
    refine wp_write htoken.keeps (wp_write htimeout.keeps ?_)
    refine wp_read htimeout.keeps fun b hb => ⟨(htimeout.read 1 b).keeps, ?_⟩
    split_ifs with hresponse
    · trivial
    · rw [ne_eq, not_not] at hresponse
      obtain ⟨x, rfl⟩ := List.length_eq_one_iff.mp hb
      have hend := htimeout.read 1 [x]
      rw [List.headD_cons] at hresponse
      refine ⟨token, hend.tokens, hend.control, fun _ => ⟨hend.sent.trans hscript, ?_⟩⟩
      rw [hend.got, hresponse]
  · exact ⟨token, hs.tokens, hs.control, fun h => absurd h hneed⟩

theorem wp_connect (config : Config) (turns : Nat) :
    (keeper config).wp (connect config turns)
      (fun c s => c.dataStream = config.needDataStream ∧ Done config s) (fun _ _ => True)
      .start := by
  have hstart : Keeps config .start :=
    ⟨List.nil_prefix, fun _ h => absurd h List.not_mem_nil, .inl rfl⟩
  have hconnect : (keeper config).wp ((connectControl config turns).bind fun token =>
      (connectData config token).bind fun _ =>
        .ret ⟨config.needDataStream, timeoutSecs config * 1000 / 2⟩)
      (fun (c : Connected) s => c.dataStream = config.needDataStream ∧ Done config s)
      (fun _ _ => True) .start := by
    refine wp_connectControl fun token s hs => ?_
    rw [Monitor.wp_bind]
    exact Monitor.wp_mono (fun _ _ hdone => ⟨rfl, hdone⟩) (fun _ _ _ => trivial) (wp_connectData hs)
  unfold connect addCa
  split_ifs
  · cases config.tlsCa with
    | none => exact hconnect
    | some ca =>
      refine wp_quiet hstart (fun r => ?_) trivial
      cases r with
      | error e => trivial
      | ok a => exact hconnect
  · exact hconnect

end

def trail (h : List ConnectEvent) : Trail where
  offered link := (port link).offered h
  taken link := (port link).taken h
  tokens := h.flatMap tokenOf

section
variable {config : Config} {turns : Nat} {h : List ConnectEvent}

variable (config) in
theorem after_keeper (h : List ConnectEvent) : (keeper config).after .start h = trail h := by
  have hoffered : ∀ link, ((keeper config).after .start h).offered link = (port link).offered h :=
    fun link => Monitor.after_flatMap (M := keeper config) (f := fun s => s.offered link)
      (fun _ _ => rfl) .start h
  have htaken : ∀ link, ((keeper config).after .start h).taken link = (port link).taken h :=
    fun link => Monitor.after_flatMap (M := keeper config) (f := fun s => s.taken link)
      (g := fun e => (port link).take e.op e.resp) (fun _ _ => rfl) .start h
  have htokens : ((keeper config).after .start h).tokens = h.flatMap tokenOf :=
    Monitor.after_flatMap (M := keeper config) (f := Trail.tokens) (fun _ _ => rfl) .start h
  rw [trail, ← htokens, ← funext hoffered, ← funext htaken]

theorem keeps_of_run {q : ConnectProg Connected} (hr : Prog.Run (connect config turns) h q)
    (hexact : ∀ e ∈ h, Exact e.op e.resp) : Keeps config (trail h) := by
  have hadmits : (keeper config).Admits .start h :=
    Monitor.admits_of_forall (fun e he _ => hexact e he) _
  have haccepts := (Monitor.wp_run (wp_connect config turns) hr hadmits).1
  rw [← after_keeper config]
  exact Monitor.keeps_after ⟨List.nil_prefix, fun _ h => absurd h List.not_mem_nil, .inl rfl⟩
    haccepts hadmits

theorem done_of_run {c : Connected} (hr : Prog.Run (connect config turns) h (.ret c))
    (hexact : ∀ e ∈ h, Exact e.op e.resp) :
    c.dataStream = config.needDataStream ∧ Done config (trail h) := by
  have hadmits : (keeper config).Admits .start h :=
    Monitor.admits_of_forall (fun e he _ => hexact e he) _
  have hend := (Monitor.wp_run (wp_connect config turns) hr hadmits).2
  rwa [after_keeper] at hend

end

end Psrt.Client
