import Rabbithole.Binkp.Flows

/-!
# Greeting and password

How two sessions with the same password come to agree on it, before files go either way.
-/

namespace Rabbithole.Binkp

open Foundation

theorem Session.advance_pwd {hashes : Hashes} {s : Session} {value : String}
    (hphase : s.phase = .greeting) (hrole : s.role = .answering)
    (hvalue : s.verifyPassword hashes value = true) :
    s.advance hashes (.command (.pwd value)) =
      (.ok (.sendCommand (.ok "secure") :: .authenticated :: s.enterTransfer.fst),
        s.enterTransfer.snd) := by
  unfold advance
  rw [hphase]
  simp only [advanceGreeting, hrole, hvalue, if_true]

theorem Session.advance_ok {hashes : Hashes} {s : Session} {text : String}
    (hphase : s.phase = .awaitOk) :
    s.advance hashes (.command (.ok text)) =
      (.ok (.authenticated :: s.enterTransfer.fst), s.enterTransfer.snd) := by
  unfold advance
  rw [hphase]
  rfl

/-!
## The challenge
-/

/-- The challenge known after a line of information. -/
def learn (known : Option Bytes) (line : String) : Option Bytes :=
  match known, parseChallenge line with
  | none, some challenge => some challenge
  | _, _ => known

/-- An event that changes nothing but what is known of the peer. -/
def Event.isInfo : Event -> Bool
  | .command (.nul _) => true
  | .command (.adr _) => true
  | _ => false

theorem learn_plain {lines : List String}
    (h : forall line, line ∈ lines -> parseChallenge line = none) (known : Option Bytes) :
    lines.foldl learn known = known := by
  induction lines with
  | nil => rfl
  | cons line rest ih =>
      have hline : learn known line = known := by
        unfold learn
        rw [h line List.mem_cons_self]
        cases known with
        | none => rfl
        | some challenge => rfl
      rw [List.foldl_cons, hline]
      exact ih (fun l hl => h l (List.mem_cons_of_mem _ hl))

namespace Setup

variable (hashes : Hashes) (setup : Setup) (r : Role)

/-- One end before files go either way. -/
def early (phase : Phase) (known : Option Bytes) (addresses : List Address) (started : Bool) :
    Side :=
  { setup.side hashes r with
    session := { Session.new hashes r (setup.config r) with
      phase := phase
      peerChallenge := known
      peerAddresses := addresses
      started := started } }

def lines : List String :=
  (Session.new hashes r (setup.config r)).greetingLines

theorem learn_lines {setup : Setup} (h : setup.Proper) :
    (setup.lines hashes .answering).foldl learn none = setup.challenge .answering := by
  have hlines : setup.lines hashes .answering = setup.systemInfo .answering ++
      ((setup.challenge .answering).map (fun challenge =>
        "OPT " ++ cramMd5Option challenge)).toList := rfl
  rw [hlines, List.foldl_append, learn_plain (h.plain .answering)]
  cases setup.challenge .answering with
  | none => rfl
  | some challenge =>
      show learn none ("OPT " ++ cramMd5Option challenge) = some challenge
      unfold learn
      rw [parseChallenge_option]

theorem verify_password (known : Option Bytes) (addresses addresses' : List Address)
    (started started' : Bool) (phase phase' : Phase) :
    (setup.early hashes .answering phase known addresses started).session.verifyPassword hashes
      ((setup.early hashes .originating phase' (setup.challenge .answering) addresses'
        started').session.passwordValue hashes) = true := by
  generalize hanswering : (setup.early hashes .answering phase known addresses started).session = s
  generalize horiginating : (setup.early hashes .originating phase' (setup.challenge .answering)
    addresses' started').session = s'
  have hpassword : s'.password = setup.password := by rw [← horiginating]; rfl
  have hhash : s.passwordHash = hashes.sha256 (Codec.bytesOf setup.password) := by
    rw [← hanswering]
    rfl
  have hcramHash : s.cramPasswordHash = (setup.challenge .answering).map (fun challenge =>
      hashes.sha256 (Codec.bytesOf
        (cramMd5Response hashes (Codec.bytesOf setup.password) challenge))) := by
    rw [← hanswering]
    rfl
  have hchallenge : s'.peerChallenge = setup.challenge .answering := by rw [← horiginating]; rfl
  have hunsecured : s'.unsecured = s.unsecured := by rw [← horiginating, ← hanswering]; rfl
  unfold Session.verifyPassword Session.passwordValue
  rw [hunsecured, hchallenge, hcramHash, hhash, hpassword]
  cases s.unsecured with
  | true => exact Bool.or_true _
  | false =>
      cases setup.challenge .answering with
      | none => simp
      | some challenge => simp

/-!
### One end before files go either way
-/

section Early

variable {hashes : Hashes} {setup : Setup} {r : Role} {known : Option Bytes}
  {addresses : List Address} {started : Bool}

def opening (hashes : Hashes) (setup : Setup) (r : Role) : List Event :=
  (setup.lines hashes r).map (fun line => Event.command (.nul line)) ++
    [.command (.adr (setup.addresses r))]

theorem feed_nul (line : String) :
    (setup.early hashes r .greeting known addresses started).feed hashes (.command (.nul line)) =
      .ok (setup.early hashes r .greeting (learn known line) addresses started, []) := by
  cases known with
  | some challenge => rfl
  | none =>
      unfold Side.feed Session.advance early learn
      simp only [Session.advanceGreeting]
      cases parseChallenge line with
      | none => rfl
      | some challenge => rfl

theorem feed_adr_answering (addresses' : List Address) :
    (setup.early hashes .answering .greeting known addresses started).feed hashes
        (.command (.adr addresses')) =
      .ok (setup.early hashes .answering .greeting known addresses' started, []) := rfl

theorem feed_adr_originating (addresses' : List Address) :
    (setup.early hashes .originating .greeting known addresses started).feed hashes
        (.command (.adr addresses')) =
      .ok (setup.early hashes .originating .awaitOk known addresses' started,
        [.command (.pwd ((setup.early hashes .originating .greeting known addresses'
          started).session.passwordValue hashes))]) := rfl

theorem performAll_sendCommands {line : Type*} (side : Side) (lines : List line)
    (command : line -> Command) (rest : List Action) :
    side.performAll (lines.map (fun line => Action.sendCommand (command line)) ++ rest) =
      ((side.performAll rest).fst,
        lines.map (fun line => Event.command (command line)) ++ (side.performAll rest).snd) := by
  induction lines with
  | nil => rfl
  | cons line lines ih =>
      rw [List.map_cons, List.cons_append]
      simp only [Side.performAll, Side.perform, ih]
      rfl

theorem start_early (hashes : Hashes) (setup : Setup) (r : Role) (known : Option Bytes)
    (addresses : List Address) : ({ setup.early hashes r .greeting known addresses false with
        session := (setup.early hashes r .greeting known addresses false).session.start.snd } :
        Side).performAll
      (setup.early hashes r .greeting known addresses false).session.start.fst =
      (setup.early hashes r .greeting known addresses true, opening hashes setup r) := by
  exact performAll_sendCommands _ (setup.lines hashes r) Command.nul _

theorem enter_early (phase : Phase) :
    exists side', ({ setup.early hashes r phase known addresses true with
        session := (setup.early hashes r phase known addresses true).session.enterTransfer.snd } :
        Side).performAll
          (setup.early hashes r phase known addresses true).session.enterTransfer.fst =
        (side', (onward (setup.files r)).snd) ∧
      Side.Became (setup.early hashes r .transfer known addresses true) side'
        (onward (setup.files r)).fst ⟨none, false, none, []⟩ :=
  @Side.sendOn (setup.early hashes r .transfer known addresses true) (setup.files r) rfl rfl rfl rfl

theorem feed_pwd {value : String}
    (hvalue : (setup.early hashes .answering .greeting known addresses true).session.verifyPassword
      hashes value = true) :
    exists side', (setup.early hashes .answering .greeting known addresses true).feed hashes
        (.command (.pwd value)) =
        .ok (side', .command (.ok "secure") :: (onward (setup.files .answering)).snd) ∧
      Side.Became (setup.early hashes .answering .transfer known addresses true) side'
        (onward (setup.files .answering)).fst ⟨none, false, none, []⟩ := by
  rcases @enter_early hashes setup .answering known addresses .greeting with
    ⟨side', hperform, hbecame⟩
  refine ⟨side', ?_, hbecame⟩
  have hadvance : (setup.early hashes .answering .greeting known addresses true).session.advance
      hashes (.command (.pwd value)) =
      (.ok (.sendCommand (.ok "secure") :: .authenticated ::
        (setup.early hashes .answering .greeting known addresses true).session.enterTransfer.fst),
        (setup.early hashes .answering .greeting known addresses
          true).session.enterTransfer.snd) := by
    exact Session.advance_pwd rfl rfl hvalue
  unfold Side.feed
  rw [hadvance]
  simp only [Side.performAll, Side.perform, hperform]
  rfl

theorem feed_ok (text : String) :
    exists side', (setup.early hashes .originating .awaitOk known addresses true).feed hashes
        (.command (.ok text)) = .ok (side', (onward (setup.files .originating)).snd) ∧
      Side.Became (setup.early hashes .originating .transfer known addresses true) side'
        (onward (setup.files .originating)).fst ⟨none, false, none, []⟩ := by
  rcases @enter_early hashes setup .originating known addresses .awaitOk with
    ⟨side', hperform, hbecame⟩
  refine ⟨side', ?_, hbecame⟩
  unfold Side.feed
  rw [Session.advance_ok rfl]
  simp only [Side.performAll, Side.perform, hperform]
  rfl

end Early

end Setup
end Rabbithole.Binkp
