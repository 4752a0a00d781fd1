import Rabbithole.Binkp.Greeting

/-!
# Sessions complete together

Two sessions with the same password hand each other their files and finish together, in
whatever order the line and the drivers take their turns.
-/

namespace Rabbithole.Binkp

open Foundation List Function

namespace Role

@[simp] theorem other_other (r : Role) : r.other.other = r := by
  cases r with
  | originating => rfl
  | answering => rfl

theorem other_ne (r : Role) : r.other ≠ r := by
  cases r with
  | originating => decide
  | answering => decide

theorem eq_or_other (r r' : Role) : r' = r ∨ r' = r.other := by
  cases r with
  | originating =>
      cases r' with
      | originating => exact Or.inl rfl
      | answering => exact Or.inr rfl
  | answering =>
      cases r' with
      | originating => exact Or.inr rfl
      | answering => exact Or.inl rfl

end Role

/-!
## The line
-/

namespace Net

section Put

variable (n : Net) (r : Role) (side : Side) (rest sent : List Event)

@[simp] theorem sides_put : (n.put r side rest sent).sides r = side := by
  unfold put
  exact update_self r side n.sides

@[simp] theorem sides_put_other : (n.put r side rest sent).sides r.other = n.sides r.other := by
  unfold put
  exact update_of_ne r.other_ne side n.sides

@[simp] theorem wires_put : (n.put r side rest sent).wires r = rest := by
  unfold put
  exact (update_of_ne r.other_ne.symm _ _).trans (update_self r rest n.wires)

@[simp] theorem wires_put_other :
    (n.put r side rest sent).wires r.other = n.wires r.other ++ sent := by
  unfold put
  exact update_self r.other _ _

end Put

section Step

variable {hashes : Hashes} {n n' : Net} {r : Role}

theorem step_start_started (h : (n.sides r).session.started = true) :
    n.step hashes (.start r) = none := by
  simp only [step, h, if_true]

theorem step_start {setup : Setup} {known : Option Bytes} {addresses : List Address}
    (h : n.sides r = setup.early hashes r .greeting known addresses false) :
    n.step hashes (.start r) = some (n.put r (setup.early hashes r .greeting known addresses true)
      (n.wires r) (Setup.opening hashes setup r)) := by
  have hperform := Setup.start_early hashes setup r known addresses
  unfold step
  simp only [h, hperform]
  rfl

theorem step_deliver_nil (h : n.wires r = []) : n.step hashes (.deliver r) = none := by
  unfold step
  simp only [h, ite_self]

theorem started_of_deliver (h : n.step hashes (.deliver r) = some n') :
    (n.sides r).session.started = true := by
  cases hstarted : (n.sides r).session.started with
  | true => rfl
  | false =>
      simp [step, hstarted] at h

theorem step_deliver {e : Event} {rest sent : List Event} {side : Side}
    (hstarted : (n.sides r).session.started = true) (hwire : n.wires r = e :: rest)
    (hfeed : (n.sides r).feed hashes e = .ok (side, sent)) :
    n.step hashes (.deliver r) = some (n.put r side rest sent) := by
  unfold step
  simp only [hstarted, hwire, hfeed]
  rfl

theorem step_stream {length : Nat} (h : n.step hashes (.stream r length) = some n') :
    0 < length ∧ length <= (n.sides r).pending.length ∧
      n' = n.put r { n.sides r with pending := (n.sides r).pending.drop length } (n.wires r)
        [.data ((n.sides r).pending.take length)] := by
  unfold step at h
  simp only at h
  split at h
  · rename_i hlength
    cases h
    exact ⟨hlength.left, hlength.right, rfl⟩
  · cases h

end Step

end Net

theorem bodies_infos {events : List Event} (h : forall e, e ∈ events -> e.isInfo = true) :
    bodies events = [] := by
  apply filter_eq_nil_iff.mpr
  intro e he hbody
  have hinfo := h e he
  cases e with
  | data b => cases hinfo
  | command cmd =>
      cases cmd with
      | nul line | adr addresses => cases hbody
      | _ => cases hinfo

theorem acks_infos {events : List Event} (h : forall e, e ∈ events -> e.isInfo = true) :
    acks events = [] := by
  apply filterMap_eq_nil_iff.mpr
  intro e he
  have hinfo := h e he
  cases e with
  | data b => rfl
  | command cmd =>
      cases cmd with
      | got id => cases hinfo
      | _ => rfl

theorem Setup.isInfo_opening (hashes : Hashes) (setup : Setup) (r : Role) :
    forall e, e ∈ Setup.opening hashes setup r -> e.isInfo = true := by
  intro e he
  rcases mem_append.mp he with hline | haddress
  · rcases mem_map.mp hline with ⟨line, -, rfl⟩
    rfl
  · rw [mem_singleton.mp haddress]
    rfl

/-!
## Stages of a session
-/

section Stages

variable (hashes : Hashes) (setup : Setup)

/-- What is on the way to the originating side before it has an address. -/
inductive Greets (known : Option Bytes) : Bool -> List Event -> Prop where
  | silent (hknown : known = none) : Greets known false []
  | speaking {left : List String} (hleft : left.foldl learn known = setup.challenge .answering) :
      Greets known true (left.map (fun line => Event.command (.nul line)) ++
        [.command (.adr (setup.addresses .answering))])

inductive Stage (n : Net) : Prop where
  | greeting {known known' : Option Bytes} {addresses addresses' : List Address}
      {started started' : Bool}
      (horiginating : n.sides .originating =
        setup.early hashes .originating .greeting known addresses started)
      (hanswering : n.sides .answering =
        setup.early hashes .answering .greeting known' addresses' started')
      (hgreets : Greets setup known started' (n.wires .originating))
      (hinfos : forall e, e ∈ n.wires .answering -> e.isInfo = true)
  | password {known known' : Option Bytes} {addresses addresses' : List Address}
      {infos : List Event} {value : String}
      (horiginating : n.sides .originating =
        setup.early hashes .originating .awaitOk known addresses true)
      (hanswering : n.sides .answering =
        setup.early hashes .answering .greeting known' addresses' true)
      (hquiet : n.wires .originating = [])
      (hinfos : forall e, e ∈ infos -> e.isInfo = true)
      (hwire : n.wires .answering = infos ++ [.command (.pwd value)])
      (hvalue : forall known addresses, (setup.early hashes .answering .greeting known addresses
        true).session.verifyPassword hashes value = true)
  | accepted {known : Option Bytes} {addresses : List Address} {text : String}
      {sent : List Event}
      (horiginating : n.sides .originating =
        setup.early hashes .originating .awaitOk known addresses true)
      (hanswering : (n.sides .answering).Settled)
      (hwire : n.wires .originating = .command (.ok text) :: sent)
      (hsent : forall e, e ∈ sent -> e.isTransfer = true)
      (hquiet : n.wires .answering = [])
  | both (hsettled : forall r, (n.sides r).Settled)
      (htransfer : forall r e, e ∈ n.wires r -> e.isTransfer = true)

/-- Both directions, wherever they are. -/
def Flowing (n : Net) : Prop :=
  forall r, Direction (setup.files r) (n.sides r).outbound (bodies (n.wires r.other))
    (n.sides r.other).inbound (acks (n.wires r))

structure Linked (n : Net) : Prop where
  stage : Stage hashes setup n
  flowing : Flowing setup n
  errors : n.errors = []

end Stages

section Flowing

variable {setup : Setup} {n : Net} {r : Role} {side : Side} {front rest sent : List Event}

theorem Flowing.flows (h : Flowing setup n) (r : Role) :
    Flows (setup.files r) (setup.files r.other) (n.sides r.other).outbound
      (n.sides r.other).inbound (n.wires r) (n.wires r.other) (n.sides r) := by
  have hcoming := h r.other
  rw [Role.other_other] at hcoming
  exact ⟨hcoming, h r⟩

theorem Flowing.put (h : Flows (setup.files r) (setup.files r.other) (n.sides r.other).outbound
      (n.sides r.other).inbound rest (n.wires r.other ++ sent) side) :
    Flowing setup (n.put r side rest sent) := by
  intro r'
  rcases Role.eq_or_other r r' with rfl | rfl
  · rw [Net.sides_put, Net.sides_put_other, Net.wires_put, Net.wires_put_other]
    exact h.going
  · rw [Role.other_other, Net.sides_put, Net.sides_put_other, Net.wires_put, Net.wires_put_other]
    exact h.coming

theorem Flowing.aside (h : Flowing setup n) (hwire : n.wires r = front ++ rest)
    (hfront : bodies front = [] ∧ acks front = []) (hsent : bodies sent = [] ∧ acks sent = [])
    (hout : side.outbound = (n.sides r).outbound) (hinto : side.inbound = (n.sides r).inbound) :
    Flowing setup (n.put r side rest sent) := by
  have hflows := h.flows r
  rw [hwire] at hflows
  apply Flowing.put
  constructor
  · have hcoming := hflows.coming
    rw [bodies_append, hfront.left, nil_append] at hcoming
    rw [hinto, acks_append, hsent.right, append_nil]
    exact hcoming
  · have hgoing := hflows.going
    rw [acks_append, hfront.right, nil_append] at hgoing
    rw [hout, bodies_append, hsent.left, append_nil]
    exact hgoing

theorem Flowing.enter {side' : Side} {ahead : List Event} (h : Flowing setup n)
    (hwire : n.wires r = front ++ rest) (hfront : bodies front = [] ∧ acks front = [])
    (hahead : bodies ahead = [] ∧ acks ahead = [])
    (hout : (n.sides r).outbound = Outbound.ofFiles (setup.files r) none [])
    (hinto : (n.sides r).inbound = ⟨none, false, none, []⟩)
    (hbecame : Side.Became side side' (onward (setup.files r)).fst ⟨none, false, none, []⟩) :
    Flowing setup (n.put r side' rest (ahead ++ (onward (setup.files r)).snd)) := by
  have hflows := h.flows r
  rw [hwire] at hflows
  apply Flowing.put
  constructor
  · have hcoming := hflows.coming
    rw [bodies_append, hfront.left, nil_append, hinto] at hcoming
    rw [hbecame.into, acks_append, acks_append, hahead.right, acks_onward, append_nil, append_nil]
    exact hcoming
  · have hgoing := hflows.going
    rw [acks_append, hfront.right, nil_append, hout] at hgoing
    rcases Direction.begin hgoing with ⟨hbodies, hacks, -, hnext⟩
    rw [hbecame.out, bodies_append, bodies_append, hbodies, hahead.left, bodies_onward, hacks]
    exact hnext

end Flowing

/-!
## Steps
-/

section Steps

variable {hashes : Hashes} {setup : Setup} {n n' : Net} {r : Role}

theorem nothing_ahead : bodies [] = [] ∧ acks [] = [] :=
  ⟨rfl, rfl⟩

theorem infos_ahead {events : List Event} (h : forall e, e ∈ events -> e.isInfo = true) :
    bodies events = [] ∧ acks events = [] :=
  ⟨bodies_infos h, acks_infos h⟩

theorem isInfo_singleton {e : Event} (h : e.isInfo = true) :
    forall x, x ∈ [e] -> x.isInfo = true := by
  intro x hx
  rw [mem_singleton.mp hx]
  exact h

variable {known : Option Bytes} {addresses : List Address} {started : Bool} {sent rest : List Event}
  {side : Side}

theorem start_early (hside : n.sides r = setup.early hashes r .greeting known addresses started)
    (hstep : n.step hashes (.start r) = some n') :
    started = false ∧
      n' = n.put r (setup.early hashes r .greeting known addresses true) (n.wires r)
        (Setup.opening hashes setup r) := by
  cases started with
  | true =>
      have hstarted : (n.sides r).session.started = true := by
        rw [hside]
        rfl
      cases (Net.step_start_started hstarted).symm.trans hstep
  | false =>
      cases (Net.step_start hside).symm.trans hstep
      exact ⟨rfl, rfl⟩

theorem Flowing.start (h : Flowing setup n)
    (hside : n.sides r = setup.early hashes r .greeting known addresses started) :
    Flowing setup (n.put r (setup.early hashes r .greeting known addresses true) (n.wires r)
      (Setup.opening hashes setup r)) := by
  refine h.aside rfl nothing_ahead (infos_ahead (setup.isInfo_opening hashes r)) ?_ ?_
  · rw [hside]
    rfl
  · rw [hside]
    rfl

theorem Greets.start {wire : List Event} (h : Greets setup known false wire) (hashes : Hashes)
    (hproper : setup.Proper) :
    Greets setup known true (wire ++ Setup.opening hashes setup .answering) := by
  cases h with
  | silent hknown =>
      refine Greets.speaking ?_
      rw [hknown]
      exact Setup.learn_lines hashes hproper

theorem Linked.start (hproper : setup.Proper) (h : Linked hashes setup n)
    (hstep : n.step hashes (.start r) = some n') : Linked hashes setup n' := by
  have hunstarted : (n.sides r).session.started = true -> False := by
    intro hstarted
    cases (Net.step_start_started hstarted).symm.trans hstep
  cases h.stage with
  | greeting horiginating hanswering hgreets hinfos =>
      cases r with
      | originating =>
          rcases start_early horiginating hstep with ⟨-, rfl⟩
          refine ⟨Stage.greeting (Net.sides_put _ _ _ _ _)
            ((Net.sides_put_other n .originating _ _ _).trans hanswering) ?_ ?_,
            h.flowing.start horiginating, h.errors⟩
          · rw [Net.wires_put]
            exact hgreets
          · show forall e, e ∈ Net.wires _ Role.originating.other -> e.isInfo = true
            rw [Net.wires_put_other]
            intro e he
            rcases mem_append.mp he with hold | hnew
            · exact hinfos e hold
            · exact setup.isInfo_opening hashes _ e hnew
      | answering =>
          rcases start_early hanswering hstep with ⟨rfl, rfl⟩
          refine ⟨Stage.greeting ((Net.sides_put_other n .answering _ _ _).trans horiginating)
            (Net.sides_put _ _ _ _ _) ?_ ?_, h.flowing.start hanswering, h.errors⟩
          · show Greets setup _ true (Net.wires _ Role.answering.other)
            rw [Net.wires_put_other]
            exact hgreets.start hashes hproper
          · rw [Net.wires_put]
            exact hinfos
  | password horiginating hanswering hquiet hinfos hwire hvalue =>
      exfalso
      apply hunstarted
      cases r with
      | originating =>
          rw [horiginating]
          rfl
      | answering =>
          rw [hanswering]
          rfl
  | accepted horiginating hanswering hwire hsent hquiet =>
      exfalso
      apply hunstarted
      cases r with
      | originating =>
          rw [horiginating]
          rfl
      | answering => exact hanswering.started
  | both hsettled htransfer => exact absurd (hsettled r).started hunstarted

theorem deliver_eq {e : Event} (hstep : n.step hashes (.deliver r) = some n')
    (hwire : n.wires r = e :: rest) (hfeed : (n.sides r).feed hashes e = .ok (side, sent)) :
    n' = n.put r side rest sent := by
  cases (Net.step_deliver (Net.started_of_deliver hstep) hwire hfeed).symm.trans hstep
  rfl

theorem not_deliver_nil (hwire : n.wires r = []) (hstep : n.step hashes (.deliver r) = some n') :
    False := by
  cases (Net.step_deliver_nil hwire).symm.trans hstep

theorem feed_info {known : Option Bytes} {addresses : List Address} {started : Bool} {e : Event}
    (he : e.isInfo = true) :
    exists known' addresses', (setup.early hashes .answering .greeting known addresses
      started).feed hashes e =
        .ok (setup.early hashes .answering .greeting known' addresses' started, []) := by
  cases e with
  | data b => cases he
  | command cmd =>
      cases cmd with
      | nul line => exact ⟨_, _, Setup.feed_nul line⟩
      | adr addresses' => exact ⟨_, _, Setup.feed_adr_answering addresses'⟩
      | _ => cases he

theorem deliver_info {e : Event} (h : Flowing setup n)
    (hside : n.sides .answering = setup.early hashes .answering .greeting known addresses started)
    (hwire : n.wires .answering = e :: rest) (he : e.isInfo = true)
    (hstep : n.step hashes (.deliver .answering) = some n') :
    exists known' addresses',
      n' = n.put .answering (setup.early hashes .answering .greeting known' addresses' started)
        rest [] ∧ Flowing setup n' := by
  rcases @feed_info hashes setup known addresses started e he with ⟨known', addresses', hfeed⟩
  rw [← hside] at hfeed
  have hput := deliver_eq hstep hwire hfeed
  refine ⟨known', addresses', hput, ?_⟩
  rw [hput]
  refine @Flowing.aside setup n .answering _ [e] rest [] h hwire
    (infos_ahead (isInfo_singleton he)) nothing_ahead ?_ ?_
  · rw [hside]
    rfl
  · rw [hside]
    rfl

theorem Linked.deliver_greeting (h : Linked hashes setup n) {known' : Option Bytes}
    {addresses' : List Address} {started' : Bool} (horiginating : n.sides .originating =
      setup.early hashes .originating .greeting known addresses started)
    (hanswering : n.sides .answering =
      setup.early hashes .answering .greeting known' addresses' started')
    (hgreets : Greets setup known started' (n.wires .originating))
    (hinfos : forall e, e ∈ n.wires .answering -> e.isInfo = true)
    (hstep : n.step hashes (.deliver r) = some n') : Linked hashes setup n' := by
  cases r with
  | originating =>
      have hstarted := Net.started_of_deliver hstep
      rw [horiginating] at hstarted
      have htrue : started = true := hstarted
      generalize hwire : n.wires .originating = wire at hgreets
      cases hgreets with
      | silent hknown => exact absurd hstep (not_deliver_nil hwire)
      | speaking hleft =>
          rename_i left
          cases left with
          | cons line left =>
              have hfeed : (n.sides .originating).feed hashes (.command (.nul line)) = _ :=
                horiginating ▸ Setup.feed_nul line
              have hput := deliver_eq hstep hwire hfeed
              subst hput
              refine ⟨Stage.greeting (Net.sides_put _ _ _ _ _)
                ((Net.sides_put_other n .originating _ _ _).trans hanswering) ?_ ?_, ?_, h.errors⟩
              · rw [Net.wires_put]
                exact Greets.speaking hleft
              · show forall e, e ∈ Net.wires _ Role.originating.other -> e.isInfo = true
                rw [Net.wires_put_other, append_nil]
                exact hinfos
              · refine @Flowing.aside setup n .originating _ [_] _ [] h.flowing hwire
                  (infos_ahead (isInfo_singleton rfl)) nothing_ahead ?_ ?_
                all_goals
                  rw [horiginating]
                  rfl
          | nil =>
              have hfeed : (n.sides .originating).feed hashes
                  (.command (.adr (setup.addresses .answering))) = _ :=
                horiginating ▸ Setup.feed_adr_originating (setup.addresses .answering)
              have hput := deliver_eq hstep hwire hfeed
              have hknown : known = setup.challenge .answering := hleft
              subst hput htrue hknown
              refine ⟨Stage.password (Net.sides_put _ _ _ _ _)
                ((Net.sides_put_other n .originating _ _ _).trans hanswering)
                (Net.wires_put _ _ _ _ _) hinfos (Net.wires_put_other n .originating _ _ _) ?_,
                ?_, h.errors⟩
              · intro known addresses
                exact setup.verify_password hashes known addresses _ true true .greeting .greeting
              · refine @Flowing.aside setup n .originating _ [_] _ [_] h.flowing hwire
                  (infos_ahead (isInfo_singleton rfl)) ⟨rfl, rfl⟩ ?_ ?_
                all_goals
                  rw [horiginating]
                  rfl
  | answering =>
      cases hwire : n.wires .answering with
      | nil => exact absurd hstep (not_deliver_nil hwire)
      | cons e rest =>
          rw [hwire] at hinfos
          rcases deliver_info h.flowing hanswering hwire (hinfos e mem_cons_self) hstep with
            ⟨known'', addresses'', rfl, hflowing⟩
          refine ⟨Stage.greeting ((Net.sides_put_other n .answering _ _ _).trans horiginating)
            (Net.sides_put _ _ _ _ _) ?_ ?_, hflowing, h.errors⟩
          · show Greets setup _ _ (Net.wires _ Role.answering.other)
            rw [Net.wires_put_other, append_nil]
            exact hgreets
          · rw [Net.wires_put]
            exact fun e' he' => hinfos e' (mem_cons_of_mem _ he')

theorem Stage.accepted_put {text : String} {more : List Event}
    (horiginating : n.sides .originating =
      setup.early hashes .originating .awaitOk known addresses true) (hside : side.Settled)
    (hwire : n.wires .originating ++ sent = .command (.ok text) :: more)
    (hmore : forall e, e ∈ more -> e.isTransfer = true) :
    Stage hashes setup (n.put .answering side [] sent) := by
  refine Stage.accepted ((Net.sides_put_other n .answering _ _ _).trans horiginating)
    ?_ ((Net.wires_put_other n .answering _ _ _).trans hwire) hmore (Net.wires_put _ _ _ _ _)
  rw [Net.sides_put]
  exact hside

section

variable (h : Linked hashes setup n) (horiginating : n.sides .originating =
      setup.early hashes .originating .awaitOk known addresses true)
include h horiginating

theorem Linked.deliver_password {known' : Option Bytes} {addresses' : List Address}
    {infos : List Event} {value : String} (hanswering : n.sides .answering =
      setup.early hashes .answering .greeting known' addresses' true)
    (hquiet : n.wires .originating = []) (hinfos : forall e, e ∈ infos -> e.isInfo = true)
    (hwire : n.wires .answering = infos ++ [.command (.pwd value)])
    (hvalue : forall known addresses, (setup.early hashes .answering .greeting known addresses
      true).session.verifyPassword hashes value = true)
    (hstep : n.step hashes (.deliver r) = some n') : Linked hashes setup n' := by
  cases r with
  | originating => exact absurd hstep (not_deliver_nil hquiet)
  | answering =>
      cases infos with
      | cons e infos =>
          rcases deliver_info h.flowing hanswering hwire (hinfos e mem_cons_self) hstep with
            ⟨known'', addresses'', rfl, hflowing⟩
          refine ⟨Stage.password ((Net.sides_put_other n .answering _ _ _).trans horiginating)
            (Net.sides_put _ _ _ _ _) ?_ ?_ (Net.wires_put _ _ _ _ _) hvalue, hflowing, h.errors⟩
          · show Net.wires _ Role.answering.other = []
            rw [Net.wires_put_other, append_nil]
            exact hquiet
          · exact fun e' he' => hinfos e' (mem_cons_of_mem _ he')
      | nil =>
          rcases Setup.feed_pwd (hvalue known' addresses') with ⟨side', hfeed, hbecame⟩
          rw [← hanswering] at hfeed
          have hput := deliver_eq hstep hwire hfeed
          subst hput
          have hwires : n.wires .originating ++ (.command (.ok "secure") ::
              (onward (setup.files .answering)).snd) = .command (.ok "secure") :: _ :=
            congrArg (· ++ _) hquiet
          refine ⟨Stage.accepted_put horiginating hbecame.settled hwires
            (transfer_onward (setup.files .answering)), ?_, h.errors⟩
          refine @Flowing.enter setup n .answering _ [_] [] side' [_] h.flowing hwire ⟨rfl, rfl⟩
            ⟨rfl, rfl⟩ ?_ ?_ hbecame
          all_goals
            rw [hanswering]
            rfl

theorem Linked.deliver_accepted {text : String} (hanswering : (n.sides .answering).Settled)
    (hwire : n.wires .originating = .command (.ok text) :: sent)
    (hsent : forall e, e ∈ sent -> e.isTransfer = true) (hquiet : n.wires .answering = [])
    (hstep : n.step hashes (.deliver r) = some n') : Linked hashes setup n' := by
  cases r with
  | answering => exact absurd hstep (not_deliver_nil hquiet)
  | originating =>
      rcases @Setup.feed_ok hashes setup known addresses text with ⟨side', hfeed, hbecame⟩
      rw [← horiginating] at hfeed
      have hput := deliver_eq hstep hwire hfeed
      subst hput
      refine ⟨Stage.both ?_ ?_, ?_, h.errors⟩
      · intro r
        cases r with
        | originating =>
            rw [Net.sides_put]
            exact hbecame.settled
        | answering =>
            show (Net.sides _ Role.originating.other).Settled
            rw [Net.sides_put_other]
            exact hanswering
      · intro r
        cases r with
        | originating =>
            rw [Net.wires_put]
            exact hsent
        | answering =>
            show forall e, e ∈ Net.wires _ Role.originating.other -> e.isTransfer = true
            have hnone : n.wires Role.originating.other = [] := hquiet
            rw [Net.wires_put_other, hnone]
            exact transfer_onward (setup.files .originating)
      · refine @Flowing.enter setup n .originating _ [_] sent side' [] h.flowing hwire
          ⟨rfl, rfl⟩ nothing_ahead ?_ ?_ hbecame
        all_goals
          rw [horiginating]
          rfl

end

theorem Linked.both_put (hsettled : forall r, (n.sides r).Settled)
    (htransfer : forall r e, e ∈ n.wires r -> e.isTransfer = true) (hside : side.Settled)
    (hrest : forall e, e ∈ rest -> e.isTransfer = true)
    (hsent : forall e, e ∈ sent -> e.isTransfer = true) :
    Stage hashes setup (n.put r side rest sent) := by
  refine Stage.both ?_ ?_
  · intro r'
    rcases Role.eq_or_other r r' with rfl | rfl
    · rw [Net.sides_put]
      exact hside
    · rw [Net.sides_put_other]
      exact hsettled r.other
  · intro r'
    rcases Role.eq_or_other r r' with rfl | rfl
    · rw [Net.wires_put]
      exact hrest
    · rw [Net.wires_put_other]
      intro e he
      rcases mem_append.mp he with hold | hnew
      · exact htransfer r.other e hold
      · exact hsent e hnew

theorem Linked.deliver_both (hproper : setup.Proper) (h : Linked hashes setup n)
    (hsettled : forall r, (n.sides r).Settled)
    (htransfer : forall r e, e ∈ n.wires r -> e.isTransfer = true)
    (hstep : n.step hashes (.deliver r) = some n') : Linked hashes setup n' := by
  cases hwire : n.wires r with
  | nil => exact absurd hstep (not_deliver_nil hwire)
  | cons e rest =>
      have hwires := htransfer r
      rw [hwire] at hwires
      have hflows := h.flowing.flows r
      rw [hwire] at hflows
      rcases hflows.feed_live (hproper.sized r.other) (hsettled r)
        (hwires e mem_cons_self) with ⟨side', sent, hfeed, hwent⟩
      have hput := deliver_eq hstep hwire hfeed
      subst hput
      exact ⟨Linked.both_put hsettled htransfer hwent.settled
        (fun e' he' => hwires e' (mem_cons_of_mem _ he')) hwent.transfer,
        Flowing.put hwent.flows, h.errors⟩

/-- The driver puts a block of the file that is out on the line. -/
theorem Linked.stream {length : Nat} (h : Linked hashes setup n)
    (hstep : n.step hashes (.stream r length) = some n') : Linked hashes setup n' := by
  rcases Net.step_stream hstep with ⟨hpos, hlength, hput⟩
  have hpending : (n.sides r).pending ≠ [] := by
    intro hnil
    rw [hnil] at hlength
    exact Nat.not_lt.mpr hlength hpos
  have hflowing : Flowing setup n' := by
    rw [hput]
    have hflows := h.flowing.flows r
    apply Flowing.put
    constructor
    · rw [acks_append]
      show Direction _ _ _ _ (acks (n.wires r.other) ++ [])
      rw [append_nil]
      exact hflows.coming
    · rw [bodies_append]
      exact hflows.going.stream hpos hlength
  refine ⟨?_, hflowing, by rw [hput]; exact h.errors⟩
  subst hput
  have hsettle : forall {side : Side} {pending : Bytes}, side.Settled ->
      ({ side with pending := pending } : Side).Settled :=
    fun hside => ⟨hside.authed, hside.started, hside.launched, hside.ready, hside.finished⟩
  have hearly : forall {phase known addresses started},
      n.sides r ≠ setup.early hashes r phase known addresses started := by
    intro phase known addresses started hside
    rw [hside] at hpending
    exact hpending rfl
  cases h.stage with
  | greeting horiginating hanswering hgreets hinfos
  | password horiginating hanswering hquiet hinfos hwire hvalue =>
      cases r with
      | originating => exact absurd horiginating hearly
      | answering => exact absurd hanswering hearly
  | accepted horiginating hanswering hwire hsent hquiet =>
      cases r with
      | originating => exact absurd horiginating hearly
      | answering =>
          rw [hquiet]
          refine Stage.accepted_put horiginating (hsettle hanswering) (congrArg (· ++ _) hwire) ?_
          intro e he
          rcases mem_append.mp he with hold | hnew
          · exact hsent e hold
          · rw [mem_singleton.mp hnew]
            rfl
  | both hsettled htransfer =>
      refine Linked.both_put hsettled htransfer (hsettle (hsettled r)) (htransfer r) ?_
      intro e he
      rw [mem_singleton.mp he]
      rfl

theorem Linked.step (hproper : setup.Proper) {move : NetMove} (h : Linked hashes setup n)
    (hstep : n.step hashes move = some n') : Linked hashes setup n' := by
  cases move with
  | start r => exact h.start hproper hstep
  | stream r length => exact h.stream hstep
  | deliver r =>
      cases h.stage with
      | greeting horiginating hanswering hgreets hinfos =>
          exact h.deliver_greeting horiginating hanswering hgreets hinfos hstep
      | password horiginating hanswering hquiet hinfos hwire hvalue =>
          exact h.deliver_password horiginating hanswering hquiet hinfos hwire hvalue hstep
      | accepted horiginating hanswering hwire hsent hquiet =>
          exact h.deliver_accepted horiginating hanswering hwire hsent hquiet hstep
      | both hsettled htransfer => exact h.deliver_both hproper hsettled htransfer hstep

theorem linked_net (hashes : Hashes) (setup : Setup) : Linked hashes setup (setup.net hashes) := by
  refine ⟨Stage.greeting rfl rfl (Greets.silent rfl) ?_, ?_, rfl⟩
  · intro e he
    cases he
  · intro r
    exact Direction.idle

theorem linked_run (hproper : setup.Proper) {moves : List NetMove}
    (hrun : run? (Net.step hashes) (setup.net hashes) moves = some n) : Linked hashes setup n :=
  run?_invariant (fun _ _ _ h hstep => h.step hproper hstep) (linked_net hashes setup) hrun

/-!
## What a run comes to
-/

theorem Stage.early_or_settled (h : Stage hashes setup n) (r : Role) :
    (exists phase known addresses started, (phase = .greeting ∨ phase = .awaitOk) ∧
      n.sides r = setup.early hashes r phase known addresses started) ∨ (n.sides r).Settled := by
  cases h with
  | greeting horiginating hanswering hgreets hinfos =>
      cases r with
      | originating => exact Or.inl ⟨_, _, _, _, Or.inl rfl, horiginating⟩
      | answering => exact Or.inl ⟨_, _, _, _, Or.inl rfl, hanswering⟩
  | password horiginating hanswering hquiet hinfos hwire hvalue =>
      cases r with
      | originating => exact Or.inl ⟨_, _, _, _, Or.inr rfl, horiginating⟩
      | answering => exact Or.inl ⟨_, _, _, _, Or.inl rfl, hanswering⟩
  | accepted horiginating hanswering hwire hsent hquiet =>
      cases r with
      | originating => exact Or.inl ⟨_, _, _, _, Or.inr rfl, horiginating⟩
      | answering => exact Or.inr hanswering
  | both hsettled htransfer => exact Or.inr (hsettled r)

theorem Linked.settled_of_finished (h : Linked hashes setup n)
    (hfinished : (n.sides r).finished = true) : (n.sides r).Settled := by
  rcases h.stage.early_or_settled r with ⟨phase, known, addresses, started, -, hside⟩ | hsettled
  · rw [hside] at hfinished
    cases hfinished
  · exact hsettled

theorem Linked.settled_of_authed (h : Linked hashes setup n)
    (hauthed : (n.sides r).session.authed) : (n.sides r).Settled := by
  rcases h.stage.early_or_settled r with
    ⟨phase, known, addresses, started, hphase, hside⟩ | hsettled
  · rw [hside] at hauthed
    have hearly : phase = .transfer ∨ phase = .done := hauthed
    rcases hphase with rfl | rfl
    all_goals
      rcases hearly with hearly | hearly
      · cases hearly
      · cases hearly
  · exact hsettled

theorem Linked.handed_of_finished (h : Linked hashes setup n)
    (hfinished : (n.sides r).finished = true) :
    (n.sides r.other).completed = handed (setup.files r) ∧
      (n.sides r).completed = handed (setup.files r.other) := by
  have hsettled := h.settled_of_finished hfinished
  have hready := hsettled.ready.mp (hsettled.finished.mp hfinished)
  have hflows := h.flowing.flows r
  have hgoing := Direction.over_of_localEob hflows.going hready.left
  have hpeer := Direction.localEob_of_peerEob hflows.coming hready.right.left
  have hcoming := Direction.over_of_localEob hflows.coming hpeer
  exact ⟨hgoing.right.right.right.left, hcoming.right.right.right.left⟩

/-- Nothing is on the way, and nothing is left to stream. -/
def Net.Quiet (n : Net) : Prop :=
  forall r, n.wires r = [] ∧ (n.sides r).pending = []

section

variable (h : Linked hashes setup n) (hquiet : n.Quiet)
include h hquiet

theorem Linked.settled_of_quiet (hauthed : (n.sides r).session.authed) (r' : Role) :
    (n.sides r').Settled := by
  have hsettled := h.settled_of_authed hauthed
  cases h.stage with
  | greeting horiginating hanswering hgreets hinfos =>
      exfalso
      cases r with
      | originating =>
          rw [horiginating] at hsettled
          rcases hsettled.authed with hphase | hphase
          · cases hphase
          · cases hphase
      | answering =>
          rw [hanswering] at hsettled
          rcases hsettled.authed with hphase | hphase
          · cases hphase
          · cases hphase
  | password horiginating hanswering hsilent hinfos hwire hvalue =>
      have hempty := (hquiet .answering).left
      rw [hwire] at hempty
      exact absurd (append_eq_nil_iff.mp hempty).right (cons_ne_nil _ _)
  | accepted horiginating hanswering hwire hsent hsilent =>
      have hempty := (hquiet .originating).left
      rw [hwire] at hempty
      cases hempty
  | both hall htransfer => exact hall r'

theorem Linked.eob_of_quiet (hsettled : (n.sides r).Settled) :
    (n.sides r).outbound.localEob = true ∧ (n.sides r.other).inbound.peerEob = true := by
  have hgoing := h.flowing r
  rw [(hquiet r).left, (hquiet r.other).left] at hgoing
  rcases Direction.quiet hgoing (hquiet r).right with hidle | hover
  · exfalso
    have heob : (n.sides r).session.localEob = false := congrArg Outbound.localEob hidle
    have hsending : (n.sides r).session.sending = none := congrArg Outbound.sending hidle
    rcases hsettled.launched with hlaunched | hlaunched
    · cases heob.symm.trans hlaunched
    · exact hlaunched hsending
  · exact hover

theorem Linked.done_of_quiet (hauthed : (n.sides r).session.authed) (r' : Role) :
    (n.sides r').session.phase = .done ∧ (n.sides r').finished = true := by
  have hsettled := h.settled_of_quiet hquiet hauthed
  have hflows := h.flowing.flows r'
  have hmine := h.eob_of_quiet hquiet (hsettled r')
  have htheirs := h.eob_of_quiet hquiet (hsettled r'.other)
  rw [Role.other_other] at htheirs
  have hgoing := Direction.over_of_localEob hflows.going hmine.left
  have hcoming := Direction.over_of_localEob hflows.coming htheirs.left
  have hdone := (hsettled r').ready.mpr
    ⟨hmine.left, htheirs.right, hgoing.right.left, hcoming.right.right.left⟩
  exact ⟨hdone, (hsettled r').finished.mpr hdone⟩

end

/--
Whatever the order of steps: no event is an error, an end that finishes has handed over every
file and has every file of the other end, and once a line is quiet both ends are done.
-/
theorem sessions_complete_together {moves : List NetMove} (hproper : setup.Proper)
    (hrun : run? (Net.step hashes) (setup.net hashes) moves = some n) :
    n.errors = [] ∧
      (forall r, (n.sides r).finished = true ->
        (n.sides r.other).completed = handed (setup.files r) ∧
          (n.sides r).completed = handed (setup.files r.other)) ∧
      (forall r, (n.sides r).session.authed -> n.Quiet ->
        forall r', (n.sides r').session.phase = .done ∧ (n.sides r').finished = true) := by
  have hlinked := linked_run hproper hrun
  refine ⟨hlinked.errors, ?_, ?_⟩
  · exact fun r hfinished => hlinked.handed_of_finished hfinished
  · exact fun r hauthed hquiet r' => hlinked.done_of_quiet hquiet hauthed r'

end Steps
/-- HMAC-MD5 of one challenge, SHA-256 of its password and of its response. -/
def sampleDigests : Hashes where
  cramMd5Digest := fun _ _ =>
    #v[4, 58, 223, 45, 83, 1, 35, 172, 0, 140, 247, 111, 148, 133, 61, 203]
  sha256 := fun bytes =>
    if bytes = Codec.bytesOf "secret" then
      #v[43, 184, 13, 83, 123, 29, 163, 227, 139, 211, 3, 97, 170, 133, 86, 134, 189, 224, 234, 205,
        113, 98, 254, 246, 162, 95, 233, 123, 245, 39, 162, 91]
    else
      #v[91, 55, 143, 139, 150, 103, 69, 171, 215, 94, 149, 1, 63, 190, 185, 88, 55, 83, 94, 203, 2,
        40, 155, 88, 239, 117, 112, 49, 228, 12, 155, 232]

def sampleSetup : Setup where
  password := "secret"
  addresses := fun _ => []
  systemInfo := fun _ => ["SYS sample"]
  challenge := fun _ => some [0x5a]
  files := fun
    | .originating => [(⟨"mail.pkt", 3, 100, 0⟩, [7, 8, 9])]
    | .answering => [(⟨"empty.pkt", 0, 200, 0⟩, [])]

def sampleTurns : List NetMove :=
  [.start .originating, .start .answering, .deliver .originating, .deliver .originating,
    .deliver .originating, .deliver .answering, .deliver .answering, .deliver .answering,
    .deliver .originating, .stream .originating 2, .deliver .originating, .deliver .answering,
    .deliver .answering, .stream .originating 1, .deliver .answering, .deliver .originating,
    .deliver .answering, .deliver .originating, .deliver .answering]

theorem sessions_complete_together_sample :
    exists n, run? (Net.step sampleDigests) (sampleSetup.net sampleDigests) sampleTurns = some n ∧
      n.errors = [] ∧ (n.sides .answering).completed = [(⟨"mail.pkt", 3, 100⟩, [7, 8, 9])] ∧
      (n.sides .originating).completed = [(⟨"empty.pkt", 0, 200⟩, [])] ∧
      forall r, (n.sides r).session.phase = .done := by
  have hproper : sampleSetup.Proper := by
    constructor
    · intro r file hfile
      cases r with
      | originating | answering =>
          rw [mem_singleton.mp hfile]
          rfl
    · intro r line hline
      rw [mem_singleton.mp hline]
      decide
  have hrun : exists n,
      run? (Net.step sampleDigests) (sampleSetup.net sampleDigests) sampleTurns = some n ∧
      (n.sides .originating).finished = true ∧ (n.sides .originating).session.phase = .done ∧
      n.wires .originating = [] ∧ n.wires .answering = [] ∧
      (n.sides .originating).pending = [] ∧ (n.sides .answering).pending = [] :=
    ⟨_, rfl, by decide, by decide, by decide, by decide, by decide, by decide⟩
  rcases hrun with ⟨n, hrun, hfinished, hdone, hwire, hwire', hpending, hpending'⟩
  rcases sessions_complete_together hproper hrun with ⟨herrors, hhanded, hquiet⟩
  have hboth := hhanded .originating hfinished
  refine ⟨n, hrun, herrors, hboth.left, hboth.right, fun r =>
    (hquiet .originating (Or.inr hdone) ?_ r).left⟩
  intro r'
  cases r' with
  | originating => exact ⟨hwire, hpending⟩
  | answering => exact ⟨hwire', hpending'⟩

end Rabbithole.Binkp
