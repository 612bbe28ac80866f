import Elks.Inet.Tcpdev

/-!
# Replies of the TCP/IP daemon (net/ipv4/af_inet.c)

A call sends a command and takes the next reply that it finds in `tdin_buf`, whatever
socket the reply names.

**Result.**  `replies_matched`: with a daemon that answers each command once, every reply
is taken once and by the call that sent the command, as long as no call looks at the
buffer while it holds the reply to another socket and no call gives up on a signal.
-/

namespace Elks
namespace Inet

open Function (update update_eq_self update_of_ne update_self)

/-- The socket of a call that is under way. -/
def Pc.sock : Pc → Option Sock
  | out c _ => some c.sock
  | wait c _ _ => some c.sock
  | lock c => some c.sock
  | _ => none

/-- The replies that have come to `tdin_buf`. -/
def State.replies (s : State) : List Msg :=
  s.delivered.filter fun m => m.type = .ret

/-- A reply to a command that the daemon has read. -/
def State.IsAnswer (s : State) (m : Msg) : Prop :=
  ∃ c ∈ s.got.map Prod.fst, c.serial = m.answers ∧ c.sock = m.sock

/-- The daemon answers each command that it has read once, and sends the other messages
as it likes; the sockets take part in one call each. -/
def State.Fair (s : State) : Label → Prop
  | .write _ m =>
      m.type ≠ .other ∧ (m.type = .ret → s.IsAnswer m ∧ m.answers ∉ s.answered)
  | .call _ sock cmd => cmd ≠ .release ∧ ∀ t, (s.pc t).sock ≠ some sock
  | _ => True

/-- A call looks at the buffer while it holds the reply to another socket. -/
def State.Clashes (s : State) : Label → Prop
  | .run t =>
      ∃ c rest slept, s.pc t = .wait c rest slept ∧ s.bufinSem ≠ 0 ∧ s.tdinBuf.sock ≠ c.sock
  | _ => False

/-- A call gives up on a signal. -/
def State.Quits (s : State) : Label → Prop
  | .run t =>
      ∃ c rest, s.pc t = .wait c rest true ∧ c.cmd.givesUp = true ∧ s.signal t = true
  | _ => False

/-- Runs in which no call clashes or gives up. -/
inductive Served : State → Prop
  | init {s : State} (h : s.Init) : Served s
  | step {s : State} (h : Served s) (l : Label) (hfair : s.Fair l) (hclash : ¬ s.Clashes l)
      (hquit : ¬ s.Quits l) : Served (s.step l)

/-- The commands, the calls that wait and the replies belong together. -/
structure Matched (s : State) : Prop where
  small : ∀ c ∈ s.sent, c.serial < s.sent.length
  serials : ∀ c ∈ s.sent, ∀ c' ∈ s.sent, c.serial = c'.serial → c = c'
  read : ∀ c ∈ s.got.map Prod.fst, c ∈ s.sent
  buffered : s.tdoutTail ≠ 0 → s.tdoutBuf ∈ s.sent
  commands : ∀ t c rest, s.pc t = .out c rest → c.cmd ≠ .release
  waits : ∀ t c rest slept, s.pc t = .wait c rest slept →
    c ∈ s.sent ∧ c.cmd ≠ .release ∧ ∀ p ∈ s.taken, p.1 ≠ c
  socks : ∀ t t' k, (s.pc t).sock = some k → (s.pc t').sock = some k → t = t'
  served : ∀ c ∈ s.sent, (∃ p ∈ s.taken, p.1 = c) ∨ ∃ t rest slept, s.pc t = .wait c rest slept
  writes : ∀ t m, s.pc t = .inw m → m.type ≠ .other ∧ (m.type = .ret →
    s.IsAnswer m ∧ m.answers ∈ s.answered ∧ ∀ m' ∈ s.replies, m'.answers ≠ m.answers)
  writers : ∀ t t' m m', s.pc t = .inw m → s.pc t' = .inw m' → m.type = .ret → m'.type = .ret →
    m.answers = m'.answers → t = t'
  answers : ∀ m ∈ s.replies, s.IsAnswer m ∧ m.answers ∈ s.answered
  once : (s.replies.map Msg.answers).Nodup
  split : s.replies = s.taken.map Prod.snd ++ if s.bufinSem = 0 then [] else [s.tdinBuf]
  taken : ∀ p ∈ s.taken, p.1.serial = p.2.answers ∧ p.1.sock = p.2.sock ∧ p.1 ∈ s.sent
  awake : s.bufinSem ≠ 0 → ∀ t c rest slept, s.pc t = .wait c rest slept →
    c.sock = s.tdinBuf.sock → s.awake t = true

section Steps

variable {s s' : State} {t t' : Task} {c : Command} {rest : List UInt8} {slept b : Bool} {m : Msg}
  {p : Pc} {k : Sock} {f : Task → Pc} {ch : Chan}

/-- A task that does not wait for a reply and has none to deliver. -/
def Pc.quiet : Pc → Bool
  | wait _ _ _ => false
  | inw _ => false
  | _ => true

/-- A step that leaves the calls that wait, and the daemon's messages, where they are. -/
structure Aside (s s' : State) : Prop where
  sent : s'.sent = s.sent
  got : s'.got = s.got
  answered : s'.answered = s.answered
  replies : s'.replies = s.replies
  taken : s'.taken = s.taken
  bufinSem : s'.bufinSem = s.bufinSem
  tdinBuf : s.bufinSem ≠ 0 → s'.tdinBuf = s.tdinBuf
  buffered : s'.tdoutTail ≠ 0 → s.tdoutTail ≠ 0 ∧ s'.tdoutBuf = s.tdoutBuf
  pc : ∀ t, s'.pc t = s.pc t ∨
    ((∀ c rest slept, s.pc t ≠ .wait c rest slept) ∧ (s'.pc t).quiet = true ∧
      (∀ c rest, s'.pc t = .out c rest → c.cmd ≠ .release) ∧
      ∀ k, (s'.pc t).sock = some k → (s.pc t).sock = some k ∨ ∀ t', (s'.pc t').sock = some k → t' = t)
  awake : ∀ t c rest slept, s.pc t = .wait c rest slept → s.awake t = true → s'.awake t = true

theorem Aside.wait_iff (h : Aside s s') :
    s'.pc t = .wait c rest slept ↔ s.pc t = .wait c rest slept := by
  rcases h.pc t with hsame | ⟨hnot, hquiet, _⟩
  · rw [hsame]
  · constructor
    · intro hwait
      rw [hwait] at hquiet
      cases hquiet
    · intro hwait
      exact absurd hwait (hnot c rest slept)

theorem Aside.inw (h : Aside s s') (hinw : s'.pc t = .inw m) : s.pc t = .inw m := by
  rcases h.pc t with hsame | ⟨_, hquiet, _⟩
  · rw [← hsame]
    exact hinw
  · rw [hinw] at hquiet
    cases hquiet

theorem Aside.isAnswer (h : Aside s s') : s'.IsAnswer m ↔ s.IsAnswer m := by
  unfold State.IsAnswer
  rw [h.got]

theorem Aside.matched (h : Aside s s') (hm : Matched s) : Matched s' where
  small := by
    rw [h.sent]
    exact hm.small
  serials := by
    rw [h.sent]
    exact hm.serials
  read := by
    rw [h.got, h.sent]
    exact hm.read
  buffered hne := by
    obtain ⟨hold, hbuf⟩ := h.buffered hne
    rw [h.sent, hbuf]
    exact hm.buffered hold
  commands t c rest hout := by
    rcases h.pc t with hsame | ⟨_, _, hcmd, _⟩
    · rw [hsame] at hout
      exact hm.commands t c rest hout
    · exact hcmd c rest hout
  waits t c rest slept hwait := by
    rw [h.sent, h.taken]
    exact hm.waits t c rest slept (h.wait_iff.mp hwait)
  socks t t' k ht ht' := by
    rcases h.pc t with hsame | ⟨_, _, _, hsock⟩
    · rcases h.pc t' with hsame' | ⟨_, _, _, hsock'⟩
      · rw [hsame] at ht
        rw [hsame'] at ht'
        exact hm.socks t t' k ht ht'
      · rcases hsock' k ht' with hold' | hfresh'
        · rw [hsame] at ht
          exact hm.socks t t' k ht hold'
        · exact hfresh' t ht
    · rcases hsock k ht with hold | hfresh
      · rcases h.pc t' with hsame' | ⟨_, _, _, hsock'⟩
        · rw [hsame'] at ht'
          exact hm.socks t t' k hold ht'
        · rcases hsock' k ht' with hold' | hfresh'
          · exact hm.socks t t' k hold hold'
          · exact hfresh' t ht
      · exact (hfresh t' ht').symm
  served c hc := by
    rw [h.sent] at hc
    rw [h.taken]
    rcases hm.served c hc with hdone | ⟨t, rest, slept, hwait⟩
    · exact Or.inl hdone
    · exact Or.inr ⟨t, rest, slept, h.wait_iff.mpr hwait⟩
  writes t m hinw := by
    rw [h.isAnswer, h.answered, h.replies]
    exact hm.writes t m (h.inw hinw)
  writers t t' m m' ht ht' := hm.writers t t' m m' (h.inw ht) (h.inw ht')
  answers m hmem := by
    rw [h.replies] at hmem
    rw [h.isAnswer, h.answered]
    exact hm.answers m hmem
  once := by
    rw [h.replies]
    exact hm.once
  split := by
    rw [h.replies, h.taken, h.bufinSem, hm.split]
    by_cases hzero : s.bufinSem = 0
    · rw [if_pos hzero, if_pos hzero]
    · rw [if_neg hzero, if_neg hzero, h.tdinBuf hzero]
  taken p hp := by
    rw [h.taken] at hp
    rw [h.sent]
    exact hm.taken p hp
  awake hbusy t c rest slept hwait hsock := by
    rw [h.bufinSem] at hbusy
    rw [h.tdinBuf hbusy] at hsock
    have hold := h.wait_iff.mp hwait
    exact h.awake t c rest slept hold (hm.awake hbusy t c rest slept hold hsock)

/-- The fields that `Matched` is about, but for `awake`. -/
structure Core where
  bufinSem : Int
  tdinBuf : Msg
  tdoutTail : Nat
  tdoutBuf : Command
  pc : Task → Pc
  sent : List Command
  got : List (Command × Nat)
  answered : List Nat
  delivered : List Msg
  taken : List (Command × Msg)

def State.core (s : State) : Core :=
  ⟨s.bufinSem, s.tdinBuf, s.tdoutTail, s.tdoutBuf, s.pc, s.sent, s.got, s.answered, s.delivered,
    s.taken⟩

theorem upSem_core : (s.upSem k).core = s.core := by
  unfold State.upSem
  dsimp only
  split
  · rfl
  · rfl

theorem clearDataAvail_core (hbufin : s.bufinSem = -1) :
    s.clearDataAvail.core = { s.core with bufinSem := 0 } := by
  have hup : s.bufinSem + 1 = 0 := by omega
  unfold State.clearDataAvail State.upBufin
  dsimp only
  rw [if_pos hup]
  split
  · unfold State.panic State.wakeUp State.core
    dsimp only
    rw [hup]
  · unfold State.wakeUp State.core
    dsimp only
    rw [hup]

theorem wakeUp_awake (h : s.awake t = true) : (s.wakeUp ch).awake t = true := by
  unfold State.wakeUp
  dsimp only
  rw [h, Bool.true_or]

theorem upSem_awake (h : s.awake t = true) : (s.upSem k).awake t = true := by
  unfold State.upSem
  dsimp only
  split
  · exact wakeUp_awake h
  · exact h

theorem clearDataAvail_awake (h : s.awake t = true) : s.clearDataAvail.awake t = true := by
  have hup : s.upBufin.awake t = true := by
    unfold State.upBufin
    dsimp only
    split
    · exact wakeUp_awake h
    · exact h
  unfold State.clearDataAvail
  dsimp only
  split
  · exact hup
  · exact hup

theorem goto_awake (h : s.awake t' = true) : (s.goto t p).awake t' = true := by
  unfold State.goto
  dsimp only
  by_cases ht : t' = t
  · rw [ht, update_self]
  · rw [update_of_ne ht]
    exact h

theorem Aside.move (hcore : s'.core = { s.core with pc := update s.pc t p })
    (hawake : ∀ t' c rest slept, s.pc t' = .wait c rest slept → s.awake t' = true →
      s'.awake t' = true)
    (hpc : p = s.pc t ∨ ((∀ c rest slept, s.pc t ≠ .wait c rest slept) ∧ p.quiet = true ∧
      (∀ c rest, p = .out c rest → c.cmd ≠ .release) ∧
      ∀ k, p.sock = some k → (s.pc t).sock = some k ∨ ∀ t', (s.pc t').sock ≠ some k)) :
    Aside s s' where
  sent := congrArg Core.sent hcore
  got := congrArg Core.got hcore
  answered := congrArg Core.answered hcore
  replies := by
    unfold State.replies
    rw [show s'.delivered = s.delivered from congrArg Core.delivered hcore]
  taken := congrArg Core.taken hcore
  bufinSem := congrArg Core.bufinSem hcore
  tdinBuf _ := congrArg Core.tdinBuf hcore
  buffered hne := by
    rw [show s'.tdoutTail = s.tdoutTail from congrArg Core.tdoutTail hcore] at hne
    exact ⟨hne, congrArg Core.tdoutBuf hcore⟩
  pc t' := by
    have hupdate : s'.pc = update s.pc t p := congrArg Core.pc hcore
    rw [hupdate]
    by_cases ht : t' = t
    · rw [ht, update_self]
      rcases hpc with hsame | ⟨hnot, hquiet, hcmd, hsock⟩
      · exact Or.inl hsame
      · refine Or.inr ⟨hnot, hquiet, hcmd, fun k hk => ?_⟩
        rcases hsock k hk with hold | hfresh
        · exact Or.inl hold
        · refine Or.inr fun t' ht' => ?_
          by_contra hne
          rw [update_of_ne hne] at ht'
          exact hfresh t' ht'
    · rw [update_of_ne ht]
      exact Or.inl rfl
  awake := hawake

theorem Aside.goto (hnot : ∀ c rest slept, s.pc t ≠ .wait c rest slept) (hquiet : p.quiet = true)
    (hsock : p.sock = none) : Aside s (s.goto t p) := by
  refine Aside.move rfl (fun _ _ _ _ _ h => goto_awake h)
    (Or.inr ⟨hnot, hquiet, fun c rest hout => ?_, fun k hk => ?_⟩)
  · rw [hout] at hsock
    cases hsock
  · rw [hsock] at hk
    cases hk

theorem Aside.sleep (hnot : ∀ c rest slept, s.pc t ≠ .wait c rest slept) (v : Bool) :
    Aside s { s with
      pc := update s.pc t (s.pc t)
      awake := update s.awake t v } := by
  refine Aside.move rfl (fun t' c rest slept hwait h => ?_) (Or.inl rfl)
  have hne : t' ≠ t := by
    rintro rfl
    exact hnot c rest slept hwait
  dsimp only
  rw [update_of_ne hne]
  exact h

theorem Aside.quiet_step (hcore : s'.core = s.core)
    (hawake : ∀ t, s.awake t = true → s'.awake t = true) : Aside s s' := by
  refine @Aside.move s s' 0 (s.pc 0) ?_ (fun t _ _ _ _ h => hawake t h) (Or.inl rfl)
  rw [update_eq_self]
  exact hcore

theorem pc_update {p' : Pc}
    (h : update f t p t' = p') (hne : p ≠ p') : f t' = p' ∧ t' ≠ t := by
  have ht : t' ≠ t := by
    rintro rfl
    exact hne ((update_self _ _ _).symm.trans h)
  exact ⟨(update_of_ne ht _ _).symm.trans h, ht⟩

theorem sock_update (hp : ∀ k, p.sock = some k → (f t).sock = some k)
    (h : (update f t p t').sock = some k) : (f t').sock = some k := by
  by_cases ht : t' = t
  · rw [ht, update_self] at h
    rw [ht]
    exact hp k h
  · rwa [update_of_ne ht] at h

theorem write_matched (hm : Matched s) (hidle : s.pc t = .idle) (hfair : s.Fair (.write t m)) :
    Matched (s.step (.write t m)) := by
  obtain ⟨htype, hnew⟩ := hfair
  have hstep : s.step (.write t m) =
      { s with answered := if m.type = MsgType.ret then s.answered ++ [m.answers] else s.answered
        }.goto t (.inw m) := if_pos hidle
  rw [hstep]
  have hmore : ∀ {x}, x ∈ s.answered →
      x ∈ if m.type = MsgType.ret then s.answered ++ [m.answers] else s.answered := by
    intro x hx
    split
    · exact List.mem_append_left _ hx
    · exact hx
  have hpc : ∀ t', update s.pc t (.inw m) t' = s.pc t' ∨
      t' = t ∧ update s.pc t (.inw m) t' = .inw m := by
    intro t'
    by_cases ht : t' = t
    · rw [ht, update_self]
      exact Or.inr ⟨rfl, rfl⟩
    · rw [update_of_ne ht]
      exact Or.inl rfl
  have hwait : ∀ {t' c rest slept}, update s.pc t (.inw m) t' = .wait c rest slept →
      s.pc t' = .wait c rest slept :=
    fun h => (pc_update h (by simp)).1
  have hsock : ∀ {t' k}, (update s.pc t (.inw m) t').sock = some k →
      (s.pc t').sock = some k :=
    sock_update fun k hk => by cases hk
  refine ⟨hm.small, hm.serials, hm.read, hm.buffered, fun t' c rest hout => ?_,
    fun t' c rest slept h => hm.waits t' c rest slept (hwait h),
    fun t₁ t₂ k h₁ h₂ => hm.socks t₁ t₂ k (hsock h₁) (hsock h₂), fun c hc => ?_,
    fun t' m' h => ?_, fun t₁ t₂ m₁ m₂ h₁ h₂ hret₁ hret₂ heq => ?_, fun m' hm' => ?_, hm.once,
    hm.split, hm.taken, fun hbusy t' c rest slept h hs => ?_⟩
  · exact hm.commands t' c rest (pc_update hout (by simp)).1
  · rcases hm.served c hc with hdone | ⟨t', rest, slept, h⟩
    · exact Or.inl hdone
    · refine Or.inr ⟨t', rest, slept, ?_⟩
      have hne : t' ≠ t := by
        rintro rfl
        rw [hidle] at h
        cases h
      exact (update_of_ne hne _ _).trans h
  · rcases hpc t' with hsame | ⟨_, hinw⟩
    · obtain ⟨hother, hans⟩ := hm.writes t' m' (hsame.symm.trans h)
      exact ⟨hother, fun hret => ⟨(hans hret).1, hmore (hans hret).2.1, (hans hret).2.2⟩⟩
    · obtain rfl : m = m' := Pc.inw.inj (hinw.symm.trans h)
      refine ⟨htype, fun hret => ⟨(hnew hret).1, ?_, fun m' hm' heq => ?_⟩⟩
      · exact (if_pos hret).symm ▸ List.mem_append_right _ (List.mem_singleton.mpr rfl)
      · exact (hnew hret).2 (heq ▸ (hm.answers m' hm').2)
  · -- the new answer is not one that was begun before
    have hold : ∀ {t' m'}, s.pc t' = .inw m' → m'.type = .ret → m.type = .ret →
        m'.answers ≠ m.answers := by
      intro t' m' h hret hret' heq
      exact (hnew hret').2 (heq ▸ ((hm.writes t' m' h).2 hret).2.1)
    rcases hpc t₁ with hsame₁ | ⟨ht₁, hinw₁⟩
    · rcases hpc t₂ with hsame₂ | ⟨ht₂, hinw₂⟩
      · exact hm.writers t₁ t₂ m₁ m₂ (hsame₁.symm.trans h₁) (hsame₂.symm.trans h₂) hret₁ hret₂ heq
      · obtain rfl : m = m₂ := Pc.inw.inj (hinw₂.symm.trans h₂)
        exact absurd heq (hold (hsame₁.symm.trans h₁) hret₁ hret₂)
    · rcases hpc t₂ with hsame₂ | ⟨ht₂, hinw₂⟩
      · obtain rfl : m = m₁ := Pc.inw.inj (hinw₁.symm.trans h₁)
        exact absurd heq.symm (hold (hsame₂.symm.trans h₂) hret₂ hret₁)
      · rw [ht₁, ht₂]
  · exact ⟨(hm.answers m' hm').1, hmore (hm.answers m' hm').2⟩
  · exact goto_awake (hm.awake hbusy t' c rest slept (hwait h) hs)

theorem send_matched (hm : Matched s) (hout : s.pc t = .out c rest) :
    Matched ((s.inetwrite c).goto t (.wait { c with serial := s.sent.length } rest false)) := by
  have hpc : ∀ t', t' ≠ t → update s.pc t
      (.wait { c with serial := s.sent.length } rest false) t' = s.pc t' :=
    fun t' ht => update_of_ne ht _ _
  have hself : update s.pc t (.wait { c with serial := s.sent.length } rest false) t =
      .wait { c with serial := s.sent.length } rest false := update_self _ _ _
  have hlen : (s.sent ++ [{ c with serial := s.sent.length }]).length = s.sent.length + 1 :=
    List.length_append
  have hsent : ∀ {c'}, c' ∈ s.sent ++ [{ c with serial := s.sent.length }] →
      c' ∈ s.sent ∨ c' = { c with serial := s.sent.length } := by
    intro c' hc'
    rcases List.mem_append.mp hc' with h | h
    · exact Or.inl h
    · exact Or.inr (List.mem_singleton.mp h)
  have hsock : ∀ {t' k}, (update s.pc t
      (.wait { c with serial := s.sent.length } rest false) t').sock = some k →
      (s.pc t').sock = some k := by
    refine sock_update fun k hk => ?_
    rw [hout]
    exact hk
  have hinw : ∀ {t' m}, update s.pc t
      (.wait { c with serial := s.sent.length } rest false) t' = .inw m → s.pc t' = .inw m :=
    fun h => (pc_update h (by simp)).1
  refine ⟨fun c' hc' => ?_, fun c₁ h₁ c₂ h₂ heq => ?_,
    fun c' hc' => List.mem_append_left _ (hm.read c' hc'),
    fun _ => List.mem_append_right _ (List.mem_singleton.mpr rfl), fun t' c' rest' h => ?_,
    fun t' c' rest' slept h => ?_, fun t₁ t₂ k h₁ h₂ => hm.socks t₁ t₂ k (hsock h₁) (hsock h₂),
    fun c' hc' => ?_, fun t' m h => hm.writes t' m (hinw h),
    fun t₁ t₂ m₁ m₂ h₁ h₂ => hm.writers t₁ t₂ m₁ m₂ (hinw h₁) (hinw h₂), hm.answers, hm.once,
    hm.split, fun p hp => ?_, fun hbusy t' c' rest' slept h hs => ?_⟩
  · have hlen' : ((s.inetwrite c).goto t
        (.wait { c with serial := s.sent.length } rest false)).sent.length = s.sent.length + 1 := hlen
    rcases hsent hc' with h | rfl
    · have := hm.small c' h
      omega
    · dsimp only
      omega
  · rcases hsent h₁ with h₁ | rfl
    · rcases hsent h₂ with h₂ | rfl
      · exact hm.serials c₁ h₁ c₂ h₂ heq
      · exact absurd heq (hm.small c₁ h₁).ne
    · rcases hsent h₂ with h₂ | rfl
      · exact absurd heq.symm (hm.small c₂ h₂).ne
      · rfl
  · exact hm.commands t' c' rest' (pc_update h (by simp)).1
  · by_cases ht : t' = t
    · rw [ht] at h
      obtain ⟨rfl, -, -⟩ := Pc.wait.inj (hself.symm.trans h)
      refine ⟨List.mem_append_right _ (List.mem_singleton.mpr rfl), hm.commands t c rest hout,
        fun p hp heq => ?_⟩
      have hsmall := hm.small p.1 (hm.taken p hp).2.2
      rw [heq] at hsmall
      exact lt_irrefl _ hsmall
    · obtain ⟨hmem, hcmd, hnot⟩ := hm.waits t' c' rest' slept ((hpc t' ht).symm.trans h)
      exact ⟨List.mem_append_left _ hmem, hcmd, hnot⟩
  · rcases hsent hc' with hold | rfl
    · rcases hm.served c' hold with hdone | ⟨t', rest', slept, h⟩
      · exact Or.inl hdone
      · have hne : t' ≠ t := by
          rintro rfl
          rw [hout] at h
          cases h
        exact Or.inr ⟨t', rest', slept, (hpc t' hne).trans h⟩
    · exact Or.inr ⟨t, rest, false, hself⟩
  · obtain ⟨hserial, hs, hmem⟩ := hm.taken p hp
    exact ⟨hserial, hs, List.mem_append_left _ hmem⟩
  · by_cases ht : t' = t
    · rw [ht]
      exact update_self _ _ _
    · exact goto_awake (wakeUp_awake (hm.awake hbusy t' c' rest' slept
        ((hpc t' ht).symm.trans h) hs))

theorem doze_matched (hm : Matched s) (hwait : s.pc t = .wait c rest slept)
    (hbufin : s.bufinSem = 0) : Matched (s.interruptibleSleepOn t (.wait c rest true)) := by
  have hpc : ∀ t', t' ≠ t → update s.pc t (.wait c rest true) t' = s.pc t' :=
    fun t' ht => update_of_ne ht _ _
  have hself : update s.pc t (.wait c rest true) t = .wait c rest true :=
    update_self _ _ _
  have hwaits : ∀ {t' c' rest' slept'},
      update s.pc t (.wait c rest true) t' = .wait c' rest' slept' →
      ∃ slept, s.pc t' = .wait c' rest' slept := by
    intro t' c' rest' slept' h
    by_cases ht : t' = t
    · rw [ht, hself] at h
      obtain ⟨rfl, rfl, -⟩ := Pc.wait.inj h
      exact ⟨slept, ht ▸ hwait⟩
    · exact ⟨slept', (hpc t' ht).symm.trans h⟩
  have hsock : ∀ {t' k}, (update s.pc t (.wait c rest true) t').sock = some k →
      (s.pc t').sock = some k := by
    refine sock_update fun k hk => ?_
    rw [hwait]
    exact hk
  have hinw : ∀ {t' m}, update s.pc t (.wait c rest true) t' = .inw m →
      s.pc t' = .inw m :=
    fun h => (pc_update h (by simp)).1
  refine ⟨hm.small, hm.serials, hm.read, hm.buffered, fun t' c' rest' h => ?_,
    fun t' c' rest' slept' h => ?_, fun t₁ t₂ k h₁ h₂ => hm.socks t₁ t₂ k (hsock h₁) (hsock h₂),
    fun c' hc' => ?_, fun t' m h => hm.writes t' m (hinw h),
    fun t₁ t₂ m₁ m₂ h₁ h₂ => hm.writers t₁ t₂ m₁ m₂ (hinw h₁) (hinw h₂), hm.answers, hm.once,
    hm.split, hm.taken, fun hbusy => absurd hbufin hbusy⟩
  · exact hm.commands t' c' rest' (pc_update h (by simp)).1
  · obtain ⟨slept, hold⟩ := hwaits h
    exact hm.waits t' c' rest' slept hold
  · rcases hm.served c' hc' with hdone | ⟨t', rest', slept', h⟩
    · exact Or.inl hdone
    · by_cases ht : t' = t
      · rw [ht, hwait] at h
        obtain ⟨rfl, rfl, rfl⟩ := Pc.wait.inj h
        exact Or.inr ⟨t, rest, true, hself⟩
      · exact Or.inr ⟨t', rest', slept', (hpc t' ht).trans h⟩

theorem tcpdevRead_core {len : Nat} :
    (s.tcpdevRead len).core =
      { s.core with
        tdoutTail := 0
        got := s.got ++ [(s.tdoutBuf, min len s.tdoutTail)] } := by
  unfold State.tcpdevRead State.upBufout
  dsimp only
  split
  · split
    · rfl
    · rfl
  · split
    · rfl
    · rfl

theorem fetch_matched {len : Nat} (hm : Matched s) (htail : s.tdoutTail ≠ 0) :
    Matched (s.tcpdevRead len) := by
  have hcore := @tcpdevRead_core s len
  have hawake : ∀ t, s.awake t = true → (s.tcpdevRead len).awake t = true := by
    intro t h
    unfold State.tcpdevRead State.upBufout
    dsimp only
    split
    · split
      · exact wakeUp_awake h
      · exact wakeUp_awake h
    · split
      · exact h
      · exact h
  generalize s.tcpdevRead len = s' at hcore hawake
  have hgot : s'.got = s.got ++ [(s.tdoutBuf, min len s.tdoutTail)] := congrArg Core.got hcore
  have hmore : ∀ {m}, s.IsAnswer m → s'.IsAnswer m := by
    rintro m ⟨c, hc, hans⟩
    refine ⟨c, ?_, hans⟩
    rw [hgot, List.map_append]
    exact List.mem_append_left _ hc
  have hpc : s'.pc = s.pc := congrArg Core.pc hcore
  have hsent : s'.sent = s.sent := congrArg Core.sent hcore
  have hanswered : s'.answered = s.answered := congrArg Core.answered hcore
  have htaken : s'.taken = s.taken := congrArg Core.taken hcore
  have hbufin : s'.bufinSem = s.bufinSem := congrArg Core.bufinSem hcore
  have htdin : s'.tdinBuf = s.tdinBuf := congrArg Core.tdinBuf hcore
  have hreplies : s'.replies = s.replies := by
    unfold State.replies
    rw [show s'.delivered = s.delivered from congrArg Core.delivered hcore]
  refine ⟨hsent ▸ hm.small, hsent ▸ hm.serials, fun c hc => ?_, fun hne => ?_, hpc ▸ hm.commands,
    ?_, hpc ▸ hm.socks, ?_, fun t m h => ?_, hpc ▸ hm.writers, fun m hmem => ?_,
    hreplies ▸ hm.once, ?_, ?_, ?_⟩
  · rw [hgot, List.map_append] at hc
    rw [hsent]
    rcases List.mem_append.mp hc with hc | hc
    · exact hm.read c hc
    · rw [List.mem_singleton.mp hc]
      exact hm.buffered htail
  · exact absurd (congrArg Core.tdoutTail hcore : s'.tdoutTail = 0) hne
  · rw [hpc, hsent, htaken]
    exact hm.waits
  · rw [hpc, hsent, htaken]
    exact hm.served
  · rw [hpc] at h
    rw [hanswered, hreplies]
    exact ⟨(hm.writes t m h).1, fun hret => ⟨hmore ((hm.writes t m h).2 hret).1,
      ((hm.writes t m h).2 hret).2⟩⟩
  · rw [hreplies] at hmem
    rw [hanswered]
    exact ⟨hmore (hm.answers m hmem).1, (hm.answers m hmem).2⟩
  · rw [hreplies, htaken, hbufin, htdin]
    exact hm.split
  · rw [hsent, htaken]
    exact hm.taken
  · rw [hbufin, htdin, hpc]
    exact fun hbusy t c rest slept h hs => hawake t (hm.awake hbusy t c rest slept h hs)

theorem reply_matched (hm : Matched s) (hinw : s.pc t = .inw m) (hret : m.type = .ret)
    (hbufin : s.bufinSem = 0)
    (hcore : s'.core =
      { s.core with
        bufinSem := -1
        tdinBuf := m
        delivered := s.delivered ++ [m]
        pc := update s.pc t .idle })
    (hawake : ∀ t c rest slept, s.pc t = .wait c rest slept → c.sock = m.sock → s'.awake t = true) :
    Matched s' := by
  have hpc' : s'.pc = update s.pc t .idle := congrArg Core.pc hcore
  have hpc : ∀ t', t' ≠ t → s'.pc t' = s.pc t' := fun t' ht => by
    rw [hpc', update_of_ne ht]
  have hold : ∀ {t' p}, s'.pc t' = p → .idle ≠ p → s.pc t' = p ∧ t' ≠ t := by
    rw [hpc']
    exact pc_update
  have hsent : s'.sent = s.sent := congrArg Core.sent hcore
  have hgot : s'.got = s.got := congrArg Core.got hcore
  have hanswered : s'.answered = s.answered := congrArg Core.answered hcore
  have htaken : s'.taken = s.taken := congrArg Core.taken hcore
  have htdin : s'.tdinBuf = m := congrArg Core.tdinBuf hcore
  have hbusy : s'.bufinSem = -1 := congrArg Core.bufinSem hcore
  have hreplies : s'.replies = s.replies ++ [m] := by
    unfold State.replies
    rw [show s'.delivered = s.delivered ++ [m] from congrArg Core.delivered hcore,
      List.filter_append]
    congr 1
    exact List.filter_eq_self.mpr fun m' hm' => by
      rw [List.mem_singleton.mp hm', hret]
      rfl
  have hanswer : ∀ {m}, s'.IsAnswer m ↔ s.IsAnswer m := by
    intro m
    unfold State.IsAnswer
    rw [hgot]
  obtain ⟨hisAnswer, hbegun, hnew⟩ := (hm.writes t m hinw).2 hret
  refine ⟨hsent ▸ hm.small, hsent ▸ hm.serials, ?_, fun hne => ?_, fun t' c rest h => ?_,
    fun t' c rest slept h => ?_, fun t₁ t₂ k h₁ h₂ => ?_, fun c hc => ?_, fun t' m' h => ?_,
    fun t₁ t₂ m₁ m₂ h₁ h₂ => ?_, fun m' hm' => ?_, ?_, ?_, ?_, fun _ t' c rest slept h hs => ?_⟩
  · rw [hgot, hsent]
    exact hm.read
  · rw [show s'.tdoutTail = s.tdoutTail from congrArg Core.tdoutTail hcore] at hne
    rw [show s'.tdoutBuf = s.tdoutBuf from congrArg Core.tdoutBuf hcore, hsent]
    exact hm.buffered hne
  · exact hm.commands t' c rest (hold h (by simp)).1
  · rw [hsent, htaken]
    exact hm.waits t' c rest slept (hold h (by simp)).1
  · have hnone : ∀ k, Pc.idle.sock = some k → (s.pc t).sock = some k := fun k hk => by cases hk
    rw [hpc'] at h₁ h₂
    exact hm.socks t₁ t₂ k (sock_update hnone h₁) (sock_update hnone h₂)
  · rw [hsent] at hc
    rw [htaken]
    rcases hm.served c hc with hdone | ⟨t', rest, slept, h⟩
    · exact Or.inl hdone
    · have hne : t' ≠ t := by
        rintro rfl
        rw [hinw] at h
        cases h
      exact Or.inr ⟨t', rest, slept, (hpc t' hne).trans h⟩
  · obtain ⟨hwas, hne⟩ := hold h (by simp)
    obtain ⟨hother, hans⟩ := hm.writes t' m' hwas
    refine ⟨hother, fun hret' => ?_⟩
    obtain ⟨hisAnswer', hbegun', hnew'⟩ := hans hret'
    rw [hanswer, hanswered, hreplies]
    refine ⟨hisAnswer', hbegun', fun m'' hm'' heq => ?_⟩
    rcases List.mem_append.mp hm'' with hm'' | hm''
    · exact hnew' m'' hm'' heq
    · rw [List.mem_singleton.mp hm''] at heq
      exact hne (hm.writers t t' m m' hinw hwas hret hret' heq).symm
  · exact hm.writers t₁ t₂ m₁ m₂ (hold h₁ (by simp)).1 (hold h₂ (by simp)).1
  · rw [hreplies] at hm'
    rw [hanswer, hanswered]
    rcases List.mem_append.mp hm' with hm' | hm'
    · exact hm.answers m' hm'
    · rw [List.mem_singleton.mp hm']
      exact ⟨hisAnswer, hbegun⟩
  · rw [hreplies, List.map_append]
    refine List.Nodup.append hm.once (List.nodup_singleton _) ?_
    intro x hx hx'
    obtain ⟨m', hm', rfl⟩ := List.mem_map.mp hx
    exact hnew m' hm' (List.mem_singleton.mp hx')
  · have hsplit := hm.split
    rw [if_pos hbufin, List.append_nil] at hsplit
    rw [hreplies, htaken, hbusy, htdin, hsplit]
    rfl
  · rw [hsent, htaken]
    exact hm.taken
  · rw [htdin] at hs
    exact hawake t' c rest slept (hold h (by simp)).1 hs

theorem Aside.message (hinw : s.pc t = .inw m) (hret : m.type ≠ .ret) (hbufin : s.bufinSem = 0)
    (hcore : s'.core =
      { s.core with
        bufinSem := 0
        tdinBuf := m
        delivered := s.delivered ++ [m]
        pc := update s.pc t .idle })
    (hawake : ∀ t, s.awake t = true → s'.awake t = true) :
    Aside s s' where
  sent := congrArg Core.sent hcore
  got := congrArg Core.got hcore
  answered := congrArg Core.answered hcore
  replies := by
    unfold State.replies
    rw [show s'.delivered = s.delivered ++ [m] from congrArg Core.delivered hcore,
      List.filter_append]
    have hnone : [m].filter (fun m => decide (m.type = .ret)) = [] :=
      List.filter_eq_nil_iff.mpr fun m' hm' => by
        rw [List.mem_singleton.mp hm', decide_eq_true_iff]
        exact hret
    rw [hnone, List.append_nil]
  taken := congrArg Core.taken hcore
  bufinSem := (congrArg Core.bufinSem hcore : s'.bufinSem = 0).trans hbufin.symm
  tdinBuf hbusy := absurd hbufin hbusy
  buffered hne := by
    rw [show s'.tdoutTail = s.tdoutTail from congrArg Core.tdoutTail hcore] at hne
    exact ⟨hne, congrArg Core.tdoutBuf hcore⟩
  pc t' := by
    have hpc : s'.pc = update s.pc t .idle := congrArg Core.pc hcore
    rw [hpc]
    by_cases ht : t' = t
    · rw [ht, update_self, hinw]
      exact Or.inr ⟨by simp, rfl, by simp, fun k hk => by cases hk⟩
    · rw [update_of_ne ht]
      exact Or.inl rfl
  awake t' _ _ _ _ := hawake t'

theorem own_reply (hm : Matched s) (hwait : s.pc t = .wait c rest slept) (hbusy : s.bufinSem ≠ 0)
    (hsock : s.tdinBuf.sock = c.sock) : c.serial = s.tdinBuf.answers := by
  have hsplit := hm.split
  rw [if_neg hbusy] at hsplit
  have hmem : s.tdinBuf ∈ s.replies := by
    rw [hsplit]
    exact List.mem_append_right _ (List.mem_singleton.mpr rfl)
  obtain ⟨c', hread, hserial, hsock'⟩ := (hm.answers _ hmem).1
  rcases hm.served c' (hm.read c' hread) with ⟨p, hp, rfl⟩ | ⟨t', rest', slept', hwait'⟩
  · have honce := hm.once
    rw [hsplit, List.map_append, List.nodup_append] at honce
    refine absurd ?_ (honce.2.2 p.2.answers ?_ s.tdinBuf.answers ?_)
    · rw [← hserial]
      exact (hm.taken p hp).1.symm
    · exact List.mem_map_of_mem (List.mem_map_of_mem hp)
    · exact List.mem_singleton.mpr rfl
  · have ht : t' = t := by
      refine hm.socks t' t c.sock ?_ ?_
      · rw [hwait']
        exact congrArg some (hsock'.trans hsock)
      · rw [hwait]
        rfl
    rw [ht, hwait] at hwait'
    obtain ⟨rfl, -, -⟩ := Pc.wait.inj hwait'
    exact hserial

theorem take_matched (hm : Matched s) (hwait : s.pc t = .wait c rest slept)
    (hbusy : s.bufinSem ≠ 0) (hsock : s.tdinBuf.sock = c.sock)
    (hcore : s'.core =
      { s.core with
        bufinSem := 0
        taken := s.taken ++ [(c, s.tdinBuf)]
        pc := update s.pc t p })
    (hquiet : p.quiet = true)
    (hcmd : ∀ c' rest', p = .out c' rest' → c'.cmd ≠ .release ∧ c'.sock = c.sock)
    (hlock : ∀ c', p ≠ .lock c') :
    Matched s' := by
  have hpc' : s'.pc = update s.pc t p := congrArg Core.pc hcore
  have hpc : ∀ t', t' ≠ t → s'.pc t' = s.pc t' := fun t' ht => by
    rw [hpc', update_of_ne ht]
  have hself : s'.pc t = p := by
    rw [hpc', update_self]
  have hold : ∀ {t' p'}, s'.pc t' = p' → p'.quiet = false → s.pc t' = p' ∧ t' ≠ t := by
    intro t' p' h hp'
    rw [hpc'] at h
    refine pc_update h ?_
    rintro rfl
    rw [hquiet] at hp'
    cases hp'
  have hsent : s'.sent = s.sent := congrArg Core.sent hcore
  have hgot : s'.got = s.got := congrArg Core.got hcore
  have hanswered : s'.answered = s.answered := congrArg Core.answered hcore
  have htaken : s'.taken = s.taken ++ [(c, s.tdinBuf)] := congrArg Core.taken hcore
  have hfree : s'.bufinSem = 0 := congrArg Core.bufinSem hcore
  have hreplies : s'.replies = s.replies := by
    unfold State.replies
    rw [show s'.delivered = s.delivered from congrArg Core.delivered hcore]
  have hanswer : ∀ {m}, s'.IsAnswer m ↔ s.IsAnswer m := by
    intro m
    unfold State.IsAnswer
    rw [hgot]
  have hwaitSock : (s.pc t).sock = some c.sock := by
    rw [hwait]
    rfl
  refine ⟨hsent ▸ hm.small, hsent ▸ hm.serials, ?_, fun hne => ?_, fun t' c' rest' h => ?_,
    fun t' c' rest' slept' h => ?_, fun t₁ t₂ k h₁ h₂ => ?_, fun c' hc' => ?_, fun t' m' h => ?_,
    fun t₁ t₂ m₁ m₂ h₁ h₂ => ?_, fun m' hm' => ?_, hreplies ▸ hm.once, ?_, fun p' hp' => ?_,
    fun hbusy' => absurd hfree hbusy'⟩
  · rw [hgot, hsent]
    exact hm.read
  · rw [show s'.tdoutTail = s.tdoutTail from congrArg Core.tdoutTail hcore] at hne
    rw [show s'.tdoutBuf = s.tdoutBuf from congrArg Core.tdoutBuf hcore, hsent]
    exact hm.buffered hne
  · by_cases ht : t' = t
    · rw [ht, hself] at h
      exact (hcmd c' rest' h).1
    · exact hm.commands t' c' rest' ((hpc t' ht).symm.trans h)
  · obtain ⟨hwas, hne⟩ := hold h rfl
    obtain ⟨hmem, hrel, hnot⟩ := hm.waits t' c' rest' slept' hwas
    rw [hsent, htaken]
    refine ⟨hmem, hrel, fun p' hp' heq => ?_⟩
    rcases List.mem_append.mp hp' with hp' | hp'
    · exact hnot p' hp' heq
    · rw [List.mem_singleton.mp hp'] at heq
      obtain rfl : c = c' := heq
      refine hne (hm.socks t' t c.sock ?_ hwaitSock)
      rw [hwas]
      rfl
  · have hback : ∀ k, p.sock = some k → (s.pc t).sock = some k := by
      intro k h
      rw [hwaitSock]
      cases p with
      | out c' rest' => exact (congrArg some (hcmd c' rest' rfl).2).symm.trans h
      | lock c' => exact absurd rfl (hlock c')
      | wait _ _ _ | inw _ => cases hquiet
      | idle | reading _ _ _ | avail _ => cases h
    rw [hpc'] at h₁ h₂
    exact hm.socks t₁ t₂ k (sock_update hback h₁) (sock_update hback h₂)
  · rw [hsent] at hc'
    rw [htaken]
    rcases hm.served c' hc' with ⟨p', hp', hdone⟩ | ⟨t', rest', slept', h⟩
    · exact Or.inl ⟨p', List.mem_append_left _ hp', hdone⟩
    · by_cases ht : t' = t
      · rw [ht, hwait] at h
        obtain ⟨rfl, -, -⟩ := Pc.wait.inj h
        exact Or.inl ⟨(c, s.tdinBuf), List.mem_append_right _ (List.mem_singleton.mpr rfl), rfl⟩
      · exact Or.inr ⟨t', rest', slept', (hpc t' ht).trans h⟩
  · rw [hanswer, hanswered, hreplies]
    exact hm.writes t' m' (hold h rfl).1
  · exact hm.writers t₁ t₂ m₁ m₂ (hold h₁ rfl).1 (hold h₂ rfl).1
  · rw [hreplies] at hm'
    rw [hanswer, hanswered]
    exact hm.answers m' hm'
  · have hsplit := hm.split
    rw [if_neg hbusy] at hsplit
    rw [hreplies, htaken, hfree, hsplit, List.map_append, if_pos rfl, List.append_nil]
    rfl
  · rw [htaken] at hp'
    rw [hsent]
    rcases List.mem_append.mp hp' with hp' | hp'
    · exact hm.taken p' hp'
    · rw [List.mem_singleton.mp hp']
      exact ⟨own_reply hm hwait hbusy hsock, hsock.symm, (hm.waits t c rest slept hwait).1⟩

theorem wakeUp_wakes (h : (s.pc t).chan = some ch) : (s.wakeUp ch).awake t = true := by
  unfold State.wakeUp
  dsimp only
  rw [decide_eq_true h, Bool.or_true]

theorem cleared_core (hbufin : s.bufinSem = -1) :
    (s.clearDataAvail.goto t p).core =
      { s.core with bufinSem := 0, pc := update s.pc t p } := by
  have hclear := clearDataAvail_core hbufin
  have hpc : s.clearDataAvail.pc = s.pc := congrArg Core.pc hclear
  calc (s.clearDataAvail.goto t p).core
      = { s.clearDataAvail.core with pc := update s.clearDataAvail.pc t p } := rfl
    _ = _ := by rw [hclear, hpc]

theorem use_core (hbufin : s.bufinSem = -1) :
    (s.use c).core =
      { s.core with bufinSem := 0, taken := s.taken ++ [(c, s.tdinBuf)] } := by
  unfold State.use
  exact clearDataAvail_core hbufin

theorem useRead_core (hbufin : s.bufinSem = -1) :
    (s.useRead t c).core =
      { s.core with
        bufinSem := 0
        taken := s.taken ++ [(c, s.tdinBuf)]
        pc := update s.pc t .idle } := by
  have hgo : ∀ {s' : State}, s'.core = s.core →
      (((s'.upSem c.sock).use c).goto t .idle).core =
        { s.core with
          bufinSem := 0
          taken := s.taken ++ [(c, s.tdinBuf)]
          pc := update s.pc t .idle } := by
    intro s' hs'
    have hup : (s'.upSem c.sock).core = s.core := upSem_core.trans hs'
    have huse : ((s'.upSem c.sock).use c).core =
        { s.core with bufinSem := 0, taken := s.taken ++ [(c, s.tdinBuf)] } := by
      rw [use_core ((congrArg Core.bufinSem hup).trans hbufin), hup,
        show (s'.upSem c.sock).taken = s.taken from congrArg Core.taken hup,
        show (s'.upSem c.sock).tdinBuf = s.tdinBuf from congrArg Core.tdinBuf hup]
    have hpc : ((s'.upSem c.sock).use c).pc = s.pc := congrArg Core.pc huse
    calc (((s'.upSem c.sock).use c).goto t .idle).core
        = { ((s'.upSem c.sock).use c).core with
            pc := update ((s'.upSem c.sock).use c).pc t .idle } := rfl
      _ = _ := by rw [huse, hpc]
  unfold State.useRead
  dsimp only
  split
  · exact hgo rfl
  · exact hgo rfl

theorem useReply_matched (hinv : Inv b s) (hm : Matched s)
    (hwait : s.pc t = .wait c rest slept) (hbusy : s.bufinSem ≠ 0)
    (hsock : s.tdinBuf.sock = c.sock) : Matched (s.useReply t c rest) := by
  have hbufin : s.bufinSem = -1 := hinv.sound.bufin.resolve_left hbusy
  have huse : (s.use c).core =
      { s.core with bufinSem := 0, taken := s.taken ++ [(c, s.tdinBuf)] } := use_core hbufin
  have hpc : (s.use c).pc = s.pc := congrArg Core.pc huse
  -- a call that goes on at `p` after it has used the reply
  have hgo : ∀ {s' : State} {p : Pc}, s'.core = (s.use c).core → p.quiet = true →
      (∀ c' rest', p = .out c' rest' → c'.cmd ≠ .release ∧ c'.sock = c.sock) →
      (∀ c', p ≠ .lock c') → Matched (s'.goto t p) := by
    intro s' p hs' hquiet hcmd hlock
    refine take_matched hm hwait hbusy hsock ?_ hquiet hcmd hlock
    have hpc' : s'.pc = s.pc := (congrArg Core.pc hs').trans hpc
    calc (s'.goto t p).core = { s'.core with pc := update s'.pc t p } := rfl
      _ = _ := by rw [hs', huse, hpc']
  have hidle : ∀ {s' : State}, s'.core = (s.use c).core → Matched (s'.goto t .idle) :=
    fun hs' => hgo hs' rfl (fun _ _ h => by cases h) (fun _ h => by cases h)
  unfold State.useReply
  dsimp only
  split
  · have hsem : s.sem c.sock = 0 := hinv.sound.sems c.sock
    rw [if_neg (show ¬ s.sem c.sock < 0 by omega)]
    exact take_matched hm hwait hbusy hsock (useRead_core hbufin) rfl
      (fun _ _ h => by cases h) (fun _ h => by cases h)
  · split
    · exact hidle rfl
    · exact hidle rfl
  · split
    · exact hidle rfl
    · exact hidle rfl
  · rename_i data nonblock hwrite
    split
    · refine hgo rfl rfl (fun c' rest' h => ?_) (fun _ h => by cases h)
      obtain ⟨rfl, -⟩ := Pc.out.inj h
      rw [hwrite]
      exact ⟨by simp, rfl⟩
    · split
      · exact hidle rfl
      · refine hgo rfl rfl (fun c' rest' h => ?_) (fun _ h => by cases h)
        obtain ⟨rfl, -⟩ := Pc.out.inj h
        exact ⟨by simp [chunk], rfl⟩
  · exact hidle rfl

theorem processAvail_core (hbufin : s.bufinSem = -1) :
    (s.processAvail t m).core =
      { s.core with bufinSem := 0, pc := update s.pc t .idle } := by
  have hgo : ∀ {s' : State}, s'.core = s.core →
      (((s'.upSem m.sock).clearDataAvail.wakeUp (.wait m.sock)).goto t .idle).core =
        { s.core with bufinSem := 0, pc := update s.pc t .idle } := by
    intro s' hs'
    have hup : (s'.upSem m.sock).core = s.core := upSem_core.trans hs'
    have hpc : (s'.upSem m.sock).pc = s.pc := congrArg Core.pc hup
    calc (((s'.upSem m.sock).clearDataAvail.wakeUp (.wait m.sock)).goto t .idle).core
        = ((s'.upSem m.sock).clearDataAvail.goto t .idle).core := rfl
      _ = _ := by rw [cleared_core ((congrArg Core.bufinSem hup).trans hbufin), hup, hpc]
  unfold State.processAvail
  exact hgo rfl

theorem tcpdevWrite_matched (hinv : Inv b s) (hm : Matched s) (hinw : s.pc t = .inw m)
    (hbufin : s.bufinSem = 0) : Matched (s.tcpdevWrite t m) := by
  have hdown : s.bufinSem - 1 = -1 := by omega
  unfold State.tcpdevWrite State.processTcpdev
  dsimp only
  split
  · rename_i htype
    refine (Aside.message hinw (by rw [htype]; simp) hbufin ?_ fun t' h => ?_).matched hm
    · exact cleared_core hdown
    · exact goto_awake (clearDataAvail_awake h)
  · rename_i htype
    have hsem : s.sem m.sock = 0 := hinv.sound.sems m.sock
    rw [if_neg (show ¬ s.sem m.sock < 0 by omega)]
    refine (Aside.message hinw (by rw [htype]; simp) hbufin ?_ fun t' h => ?_).matched hm
    · exact processAvail_core hdown
    · unfold State.processAvail
      exact goto_awake (wakeUp_awake (clearDataAvail_awake (upSem_awake h)))
  · rename_i hchg havail
    have hret : m.type = .ret := by
      have hother := (hm.writes t m hinw).1
      cases htype : m.type with
      | ret => rfl
      | chgState => exact absurd htype hchg
      | availData => exact absurd htype havail
      | other => exact absurd htype hother
    refine reply_matched hm hinw hret hbufin ?_ fun t' c rest slept h hs => ?_
    · unfold State.core State.goto State.wakeUp
      dsimp only
      rw [hdown]
    · refine goto_awake (wakeUp_wakes ?_)
      dsimp only
      rw [h]
      exact congrArg (fun k => some (Chan.wait k)) hs

theorem run_matched (hinv : Inv b s) (hm : Matched s) (hclash : ¬ s.Clashes (.run t))
    (hquit : ¬ s.Quits (.run t)) : Matched (s.run t) := by
  have hbufin : s.bufinSem = 0 ∨ s.bufinSem = -1 := hinv.sound.bufin
  unfold State.run
  split
  · cases hpc : s.pc t with
    | idle => exact hm
    | out c rest =>
        have hnot : ∀ c' rest' slept, s.pc t ≠ .wait c' rest' slept := by
          rw [hpc]
          simp
        dsimp only
        unfold State.runOut
        split
        · have haside := @Aside.sleep s t hnot false
          rw [hpc] at haside
          exact haside.matched hm
        · split
          · rename_i hrelease
            exact absurd hrelease (hm.commands t c rest hpc)
          · exact send_matched hm hpc
    | wait c rest slept =>
        dsimp only
        unfold State.runWait
        split
        · rename_i hgives
          rw [Bool.and_eq_true, Bool.and_eq_true] at hgives
          obtain ⟨⟨rfl, hcmd⟩, hsignal⟩ := hgives
          exact absurd ⟨c, rest, hpc, hcmd, hsignal⟩ hquit
        · split
          · rename_i hfree
            exact doze_matched hm hpc hfree
          · rename_i hbusy
            refine useReply_matched hinv hm hpc hbusy ?_
            by_contra hsock
            exact hclash ⟨c, rest, slept, hpc, hbusy, hsock⟩
    | lock c =>
        have hcalm := hinv.calm t
        rw [hpc] at hcalm
        cases hcalm
    | reading len nonblock slept =>
        have hnot : ∀ c' rest' slept, s.pc t ≠ .wait c' rest' slept := by
          rw [hpc]
          simp
        dsimp only
        unfold State.runReading
        split
        · exact (Aside.goto hnot rfl rfl).matched hm
        · split
          · split
            · exact (Aside.goto hnot rfl rfl).matched hm
            · refine (Aside.move rfl (fun t' c rest slept hwait h => ?_) (Or.inr
                ⟨hnot, rfl, by simp, fun k hk => by cases hk⟩)).matched hm
              have hne : t' ≠ t := by
                rintro rfl
                exact hnot c rest slept hwait
              exact (update_of_ne hne _ _).trans h
          · rename_i htail
            have hread : Matched (s.tcpdevRead len) := fetch_matched hm htail
            have hsame : (s.tcpdevRead len).pc = s.pc := congrArg Core.pc tcpdevRead_core
            refine (Aside.goto ?_ rfl rfl).matched hread
            rw [hsame]
            exact hnot
    | inw m =>
        dsimp only
        split
        · have haside := @Aside.sleep s t (by rw [hpc]; simp) false
          rw [hpc] at haside
          exact haside.matched hm
        · rename_i hfree
          exact tcpdevWrite_matched hinv hm hpc (by omega)
    | avail m =>
        have hcalm := hinv.calm t
        rw [hpc] at hcalm
        cases hcalm
  · exact hm

theorem call_matched {sock : Sock} {cmd : Cmd} (hm : Matched s)
    (hfair : s.Fair (.call t sock cmd)) : Matched (s.call t sock cmd) := by
  obtain ⟨hcmd, hfree⟩ := hfair
  unfold State.call
  split
  · rename_i hstart
    have hbegin : ∀ {c : Command} {rest}, c.cmd ≠ .release → c.sock = sock →
        Matched (s.goto t (.out c rest)) := by
      intro c rest hc hsock
      refine (Aside.move rfl (fun _ _ _ _ _ h => goto_awake h) (Or.inr
        ⟨by rw [hstart.1]; simp, rfl, fun c' rest' h => ?_, fun k hk => Or.inr ?_⟩)).matched hm
      · obtain ⟨rfl, -⟩ := Pc.out.inj h
        exact hc
      · obtain rfl : c.sock = k := Option.some.inj hk
        rw [hsock]
        exact hfree
    split
    · exact hbegin (by simp [chunk]) rfl
    · exact hbegin hcmd rfl
  · exact hm

theorem step_matched {l : Label} (hinv : Inv b s) (hm : Matched s) (hfair : s.Fair l)
    (hclash : ¬ s.Clashes l) (hquit : ¬ s.Quits l) : Matched (s.step l) := by
  cases l with
  | opens root =>
      unfold State.step State.tcpdevOpen
      dsimp only
      split
      · exact hm
      · refine Aside.matched (s := s) ?_ hm
        exact ⟨rfl, rfl, rfl, rfl, rfl, rfl, fun _ => rfl, fun hne => absurd rfl hne,
          fun _ => Or.inl rfl, fun _ _ _ _ _ h => h⟩
  | release =>
      have haside : Aside s (s.step .release) := Aside.quiet_step rfl fun _ h => h
      exact haside.matched hm
  | read t len nonblock =>
      unfold State.step
      dsimp only
      split
      · rename_i hidle
        exact (Aside.goto (by rw [hidle]; simp) rfl rfl).matched hm
      · exact hm
  | write t m =>
      by_cases hidle : s.pc t = .idle
      · exact write_matched hm hidle hfair
      · have hsame : s.step (.write t m) = s := if_neg hidle
        rw [hsame]
        exact hm
  | call t sock cmd => exact call_matched hm hfair
  | run t => exact run_matched hinv hm hclash hquit
  | signal t =>
      have hawake : ∀ t', s.awake t' = true → (s.step (.signal t)).awake t' = true := by
        intro t' h
        unfold State.step
        dsimp only
        split
        · by_cases ht : t' = t
          · rw [ht, update_self]
          · rw [update_of_ne ht]
            exact h
        · exact h
      have haside : Aside s (s.step (.signal t)) := Aside.quiet_step rfl hawake
      exact haside.matched hm
  | handle t =>
      unfold State.step
      dsimp only
      split
      · refine Aside.matched (Aside.quiet_step ?_ ?_) hm
        · rfl
        · exact fun _ h => h
      · exact hm

theorem State.Init.matched (h : s.Init) : Matched s := by
  have hreplies : s.replies = [] := by
    unfold State.replies
    rw [h.delivered]
    rfl
  have hpc := h.tasks
  refine ⟨?_, ?_, ?_, fun hne => absurd h.tail hne, ?_, ?_, ?_, ?_, ?_, ?_, ?_, ?_, ?_, ?_,
    fun hbusy => absurd h.bufin hbusy⟩
  · simp [h.sent]
  · simp [h.sent]
  · simp [h.got]
  · simp [hpc]
  · simp [hpc]
  · simp [hpc, Pc.sock]
  · simp [h.sent]
  · simp [hpc]
  · simp [hpc]
  · simp [hreplies]
  · simp [hreplies]
  · simp [hreplies, h.taken, h.bufin]
  · simp [h.taken]

theorem served_matched (h : Served s) : Matched s ∧ ∃ b, Reached b s := by
  induction h with
  | init h => exact ⟨h.matched, false, .init h⟩
  | step _ l hfair hclash hquit ih =>
      obtain ⟨hm, b, hreached⟩ := ih
      exact ⟨step_matched (reached_inv hreached) hm hfair hclash hquit, _, hreached.step l⟩

/-- A call takes the reply to the command that it has sent for its own socket, no reply is
taken twice, and one that has not been taken is in the buffer with its call about to
run. -/
theorem replies_matched (h : Served s) :
    (∀ p ∈ s.taken, p.1.serial = p.2.answers ∧ p.1.sock = p.2.sock) ∧
    (s.taken.map fun p => p.2.answers).Nodup ∧
    ∀ m ∈ s.replies, (∃ c, (c, m) ∈ s.taken) ∨
      s.bufinSem = -1 ∧ s.tdinBuf = m ∧ ∃ t c rest slept, s.pc t = .wait c rest slept ∧
        c.serial = m.answers ∧ c.sock = m.sock ∧ s.awake t = true := by
  obtain ⟨hm, b, hreached⟩ := served_matched h
  have hbufin := (tcpdev_buffers hreached).1
  have hsplit := hm.split
  refine ⟨fun p hp => ⟨(hm.taken p hp).1, (hm.taken p hp).2.1⟩, ?_, fun m hmem => ?_⟩
  · have honce := hm.once
    rw [hsplit, List.map_append, List.map_map] at honce
    exact (List.nodup_append.mp honce).1
  · have hanswer := (hm.answers m hmem).1
    have hmem' := hmem
    rw [hsplit] at hmem'
    rcases List.mem_append.mp hmem' with htaken | hbuf
    · obtain ⟨p, hp, rfl⟩ := List.mem_map.mp htaken
      exact Or.inl ⟨p.1, hp⟩
    · rcases hbufin with hzero | hminus
      · rw [if_pos hzero] at hbuf
        cases hbuf
      · have hbusy : s.bufinSem ≠ 0 := by omega
        rw [if_neg hbusy] at hbuf
        obtain rfl := List.mem_singleton.mp hbuf
        obtain ⟨c, hread, hserial, hsock⟩ := hanswer
        rcases hm.served c (hm.read c hread) with ⟨p, hp, rfl⟩ | ⟨t, rest, slept, hwait⟩
        · -- the reply would have been taken before
          have honce := hm.once
          rw [hsplit, if_neg hbusy, List.map_append, List.nodup_append] at honce
          refine absurd ((hm.taken p hp).1.symm.trans hserial) (honce.2.2 p.2.answers ?_ _ ?_)
          · exact List.mem_map_of_mem (List.mem_map_of_mem hp)
          · exact List.mem_singleton.mpr rfl
        · exact Or.inr ⟨hminus, rfl, t, c, rest, slept, hwait, hserial, hsock,
            hm.awake hbusy t c rest slept hwait hsock⟩

end Steps

section Runs

variable {s : State}

/-- A run within the rules of the daemon and the sockets. -/
def State.FairRun : State → List Label → Prop
  | _, [] => True
  | s, l :: ls => s.Fair l ∧ State.FairRun (s.step l) ls

/-- A socket sends a command and waits, the daemon reads it and answers `ret`. -/
def answered (ret : Int) : List Label :=
  oneCommand ++ [.run 1, .read 9 200 false, .run 9, .write 9 ⟨.ret, ret, 7, [], 0⟩, .run 9]

theorem answered_fair (ret : Int) : started.FairRun (answered ret) := by
  refine ⟨trivial, ⟨by simp, fun t h => ?_⟩, trivial, trivial, trivial, trivial,
    ⟨by simp, fun _ => ⟨⟨_, List.mem_singleton.mpr rfl, rfl, rfl⟩, ?_⟩⟩, trivial, trivial⟩
  · cases h
  · exact List.not_mem_nil

/-- A second socket sends a command before the first one has run. -/
def overtaken : List Label :=
  answered (-98) ++ [.call 2 8 (.listen 5), .run 2, .run 2]

theorem overtaken_free (t : Task) : ((started.steps (answered (-98))).pc t).sock ≠ some 8 := by
  intro h
  by_cases h1 : t = 1
  · rw [h1] at h
    exact absurd h (by decide)
  by_cases h9 : t = 9
  · rw [h9] at h
    exact absurd h (by decide)
  have hidle : (started.steps (answered (-98))).pc t = .idle :=
    (update_of_ne h9 _ _).trans ((update_of_ne h9 _ _).trans
      ((update_of_ne h9 _ _).trans ((update_of_ne h9 _ _).trans
        ((update_of_ne h1 _ _).trans ((update_of_ne h1 _ _).trans
          (update_of_ne h1 _ _))))))
  rw [hidle] at h
  cases h

theorem fairRun_append {ls ls' : List Label} (h : s.FairRun ls)
    (h' : (s.steps ls).FairRun ls') : s.FairRun (ls ++ ls') := by
  induction ls generalizing s with
  | nil => exact h'
  | cons l ls ih => exact ⟨h.1, ih h.2 h'⟩

/-- The call on socket 8 returns the error of the call on socket 7. -/
theorem reply_overtaken :
    started.Init ∧ started.FairRun overtaken ∧
      ∃ p ∈ (started.steps overtaken).taken, p.1.sock = 8 ∧ p.2.sock = 7 ∧ p.2.retValue = -98 :=
  ⟨started_init,
    fairRun_append (answered_fair (-98)) ⟨⟨by simp, overtaken_free⟩, trivial, trivial, trivial⟩,
    _, List.mem_singleton.mpr rfl, rfl, rfl, rfl⟩

theorem Served.quiet {l : Label} (h : Served s) (hfair : s.Fair l)
    (hfree : s.bufinSem = 0) (hsignal : ∀ t, s.signal t = false) : Served (s.step l) := by
  refine h.step l hfair (fun hclash => ?_) fun hquit => ?_
  · cases l with
    | run t =>
        obtain ⟨_, _, _, _, hbusy, _⟩ := hclash
        exact hbusy hfree
    | _ => exact hclash
  · cases l with
    | run t =>
        obtain ⟨_, _, _, _, hset⟩ := hquit
        rw [hsignal t] at hset
        cases hset
    | _ => exact hquit

/-- The reply in the buffer, and the call that it is for. -/
theorem replies_matched_answered :
    ∃ t c rest slept, (started.steps (answered 0)).pc t = .wait c rest slept ∧
      c.serial = 0 ∧ c.sock = 7 ∧ (started.steps (answered 0)).awake t = true := by
  have hfair := answered_fair 0
  have hserved : Served (started.steps (answered 0)) := by
    refine .quiet (.quiet (.quiet (.quiet (.quiet (.quiet (.quiet (.quiet (.init started_init)
      hfair.1 rfl fun _ => rfl) hfair.2.1 rfl fun _ => rfl) hfair.2.2.1 rfl fun _ => rfl)
      hfair.2.2.2.1 rfl fun _ => rfl) hfair.2.2.2.2.1 rfl fun _ => rfl)
      hfair.2.2.2.2.2.1 rfl fun _ => rfl) hfair.2.2.2.2.2.2.1 rfl fun _ => rfl)
      hfair.2.2.2.2.2.2.2.1 rfl fun _ => rfl
  obtain ⟨_, _, hpending⟩ := replies_matched hserved
  rcases hpending ⟨.ret, 0, 7, [], 0⟩ (List.mem_singleton.mpr rfl) with ⟨c, hc⟩ | ⟨_, _, hwaits⟩
  · cases hc
  · exact hwaits

end Runs

end Inet
end Elks
