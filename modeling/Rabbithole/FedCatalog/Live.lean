import Rabbithole.FedCatalog.Runs
import Rabbithole.Proto.FrameCodec

/-!
# Live catalog exchange

Two servers tell one another of their catalogs, and ask for what is new.  What is asked for
may come late, twice, or not at all, and other tasks change the cache in between.
-/

namespace Rabbithole.FedCatalog

open Foundation Federation Proto List

structure CatalogAnnounceMsg where
  catalogId : BitVec (8 * 32)
  generation : UInt64
deriving DecidableEq

def Wire.catalogAnnounceMsg (p : Postcard) : Codec CatalogAnnounceMsg :=
  ((p.array 32).pair p.u64).iso (fun (catalogId, generation) => ⟨catalogId, generation⟩)
    (fun a => (a.catalogId, a.generation)) (fun _ => rfl)

/-- A message without fields takes no bytes. -/
def Wire.catalogGetMsg : Codec Unit where
  encode := fun _ => []
  decode := fun bytes => some ((), bytes)
  decode_encode := fun _ _ => rfl

def Wire.catalogMsg (p : Postcard) : Codec Bytes :=
  Codec.list p.length Proto.Wire.u8

def mtSupport : UInt16 := 12

def mtAnnounce : UInt16 := 13

def mtGet : UInt16 := 14

def mtReply : UInt16 := 15

def capability : String := "catalog-sync-v1"

/-- Times are in nanoseconds. -/
def checkInterval : Nat := 30 * 10 ^ 9

def requestTimeout : Nat := 15 * 10 ^ 9

def maxControl : Nat := 128

def maxCatalog : Nat := 4 * 1024 * 1024

inductive SyncError where
  | idsExhausted
  | unapproved
  | envelope
  | family
  | messageType
  | tooLarge
  | decode
  | malformed
  | mismatch
  | rejected
  | send
deriving DecidableEq

def fedFrame (kind : FrameKind) (messageType : UInt16) (id : UInt64) (payload : Bytes) : Frame where
  version := 1
  kind := kind
  family := 8
  messageType := messageType
  id := id
  error := none
  payload := payload

def decodeFedBounded {message : Type} (c : Codec message) (frame : Frame) (messageType : UInt16)
    (max : Nat) : Except SyncError message :=
  if frame.family ≠ 8 then .error .family
  else if frame.messageType ≠ messageType then .error .messageType
  else if max < frame.payload.length then .error .tooLarge
  else
    match c.fromBytes frame.payload with
    | none => .error .decode
    | some message => .ok message

/-- What is shared with the other tasks of the server. -/
structure Shared where
  registry : PeerRegistry
  catalogs : CatalogState

def Shared.wants (shared : Shared) (key : ServerKey) (generation : UInt64) : Bool :=
  ((shared.catalogs.peers.get? key).bind PeerCatalog.generation).all
    (fun current => decide (current < generation))

/-- What a call meets: the shared state as often as it looks, and whether its frames leave. -/
structure Env where
  entered : Shared
  localCatalog : Option SignedCatalog
  built : Shared
  wanted : Shared
  fetched : Shared
  announced : Bool
  sent : Bool

/-- The peer at the other end, with the codecs and the hash. -/
structure Edge where
  cache : PeerCache
  hash : Bytes -> BitVec (8 * 32)
  key : ServerKey
  origin : String

structure Pending where
  id : UInt64
  deadline : Nat
  announced : CatalogAnnounceMsg
  fetch : CatalogFetch

structure CatalogSync where
  enabled : Bool
  probe : Option (UInt64 × Nat)
  nextId : UInt64
  nextCheck : Option Nat
  nextFetch : Option Nat
  announced : Option CatalogAnnounceMsg
  remote : Option CatalogAnnounceMsg
  pending : Option Pending

/-- How a call ends, what it leaves, and what it has sent and given to the cache. -/
structure Outcome where
  result : Except SyncError Unit
  sync : CatalogSync
  sent : List Frame
  ingested : List (CatalogFetch × Bytes)

/-- The rest of a call, unless it has failed. -/
def Outcome.andThen (o : Outcome) (next : CatalogSync -> Outcome) : Outcome :=
  match o.result with
  | .error _ => o
  | .ok _ => { next o.sync with
      sent := o.sent ++ (next o.sync).sent
      ingested := o.ingested ++ (next o.sync).ingested }

namespace Edge

variable (edge : Edge)

def approves (shared : Shared) : Bool :=
  isApprovedOrigin shared.registry edge.key edge.origin

def catalogId (signed : SignedCatalog) : BitVec (8 * 32) :=
  edge.hash ((Wire.catalog edge.cache.postcard).encode signed.catalog)

def support (kind : FrameKind) (id : UInt64) : Frame :=
  fedFrame kind mtSupport id (edge.cache.postcard.text.encode capability)

def catalogReply (id : UInt64) (bytes : Bytes) : Option Frame :=
  let payload := (Wire.catalogMsg edge.cache.postcard).encode bytes
  if maxCatalog < bytes.length ∨ maxCatalog < payload.length then none
  else some (fedFrame .reply mtReply id payload)

def verifyAnnounced (bytes : Bytes) (announced : CatalogAnnounceMsg) :
    Except SyncError SignedCatalog :=
  match (Wire.signedCatalog edge.cache.postcard).fromBytes bytes with
  | none => .error .malformed
  | some signed =>
      if signed.catalog.generation < announced.generation ∨
          signed.catalog.generation = announced.generation ∧
            edge.catalogId signed ≠ announced.catalogId then .error .mismatch
      else .ok signed

end Edge

def getFrame (id : UInt64) : Frame :=
  fedFrame .request mtGet id (Wire.catalogGetMsg.encode ())

namespace CatalogSync

def new : CatalogSync where
  enabled := false
  probe := none
  nextId := 1
  nextCheck := none
  nextFetch := none
  announced := none
  remote := none
  pending := none

def ok (sync : CatalogSync) : Outcome :=
  ⟨.ok (), sync, [], []⟩

def fail (sync : CatalogSync) (e : SyncError) : Outcome :=
  ⟨.error e, sync, [], []⟩

def send (sync : CatalogSync) (frame : Frame) (sent : Bool) : Outcome :=
  ⟨if sent then .ok () else .error .send, sync, [frame], []⟩

def requestId (sync : CatalogSync) : Option (UInt64 × CatalogSync) :=
  if sync.nextId.toNat + 1 < 2 ^ 64 then
    some (sync.nextId, { sync with nextId := sync.nextId + 1 })
  else none

variable (edge : Edge) (env : Env) (sync : CatalogSync) (now : Nat) (incoming : Frame)

/-- `CatalogSync::probe`: what the dialer starts with. -/
def startProbe : Outcome :=
  match sync.requestId with
  | none => sync.fail .idsExhausted
  | some (id, sync) =>
      ({ sync with probe := some (id, now + requestTimeout) } : CatalogSync).send
        (edge.support .request id) env.sent

def expire : CatalogSync :=
  { sync with
    probe := sync.probe.filter (fun probe => decide (now < probe.snd))
    pending := sync.pending.filter (fun pending => decide (now < pending.deadline)) }

def checkDue : Option CatalogSync :=
  if !sync.enabled || sync.nextCheck.any (fun deadline => decide (now < deadline)) then none
  else some { sync with nextCheck := some (now + checkInterval) }

def announceLocal : Outcome :=
  match env.localCatalog with
  | none => sync.ok
  | some mine =>
      if !edge.approves env.built then sync.fail .unapproved
      else
        let announcement : CatalogAnnounceMsg := ⟨edge.catalogId mine, mine.catalog.generation⟩
        if sync.announced = some announcement then sync.ok
        else
          (sync.send (fedFrame .push mtAnnounce 0
            ((Wire.catalogAnnounceMsg edge.cache.postcard).encode announcement))
              env.announced).andThen
            (fun sync => ok { sync with announced := some announcement })

def requestIfNeeded : Outcome :=
  if !sync.enabled || sync.pending.isSome ||
      sync.nextFetch.any (fun deadline => decide (now < deadline)) then sync.ok
  else
    match sync.remote with
    | none => sync.ok
    | some announced =>
        if !env.wanted.wants edge.key announced.generation then sync.ok
        else
          let sync := { sync with nextFetch := some (now + checkInterval) }
          match (env.fetched.catalogs.beginFetch env.fetched.registry edge.key).snd with
          | .error _ => sync.ok
          | .ok fetch =>
              match sync.requestId with
              | none => sync.fail .idsExhausted
              | some (id, sync) =>
                  ({ sync with pending := some ⟨id, now + requestTimeout, announced, fetch⟩ } :
                    CatalogSync).send (getFrame id) env.sent

def tick : Outcome :=
  (match (sync.expire now).checkDue now with
    | none => (sync.expire now).ok
    | some sync => announceLocal edge env sync).andThen
    (fun sync => requestIfNeeded edge env sync now)

/-!
## Frames that come in
-/

/-- A support reply has to be of the probe that is still waited for. -/
def handleSupport : Outcome :=
  match incoming.kind with
  | .request =>
      if incoming.id = 0 then sync.ok
      else
        match decodeFedBounded edge.cache.postcard.text incoming mtSupport maxControl with
        | .error e => sync.fail e
        | .ok said =>
            if said = capability ∧ incoming.error = none then
              (sync.send (edge.support .reply incoming.id) env.sent).andThen
                (fun sync => ok { sync with enabled := true })
            else sync.ok
  | .reply =>
      if sync.probe.any (fun probe => decide (probe.fst = incoming.id)) then
        if incoming.error.isSome then ok { sync with probe := none }
        else
          match decodeFedBounded edge.cache.postcard.text incoming mtSupport maxControl with
          | .error e => sync.fail e
          | .ok said =>
              if said = capability then ok { sync with probe := none, enabled := true }
              else sync.ok
      else sync.ok
  | .push => sync.ok

/-- The newest announcement is kept. -/
def hear (announcement : CatalogAnnounceMsg) : CatalogSync :=
  { sync with
    remote :=
      if sync.remote.all (fun old => decide (old.generation < announcement.generation)) then
        some announcement
      else sync.remote }

def handleAnnounce : Outcome :=
  if incoming.kind ≠ .push ∨ incoming.id ≠ 0 ∨ incoming.error.isSome then sync.fail .envelope
  else
    match decodeFedBounded (Wire.catalogAnnounceMsg edge.cache.postcard) incoming mtAnnounce
        maxControl with
    | .error e => sync.fail e
    | .ok announcement => requestIfNeeded edge env (sync.hear announcement) now

def handleGet : Outcome :=
  if incoming.kind ≠ .request ∨ incoming.id = 0 ∨ incoming.error.isSome then sync.fail .envelope
  else
    match decodeFedBounded Wire.catalogGetMsg incoming mtGet maxControl with
    | .error e => sync.fail e
    | .ok _ =>
        let built := env.localCatalog.bind (fun mine =>
          edge.catalogReply incoming.id (edge.cache.toBytes mine))
        let unavailable : Frame :=
          { fedFrame .reply mtReply incoming.id [] with error := some .unavailable }
        if !edge.approves env.built then sync.fail .unapproved
        else sync.send (built.getD unavailable) env.sent

/-- Frames that are late, wrong or not asked for leave what is waited for alone. -/
def handleReply : Outcome :=
  match sync.pending.filter (fun pending =>
    decide (incoming.kind = .reply ∧ pending.id = incoming.id)) with
  | none => sync.ok
  | some pending =>
      if incoming.error.isSome then
        if maxControl < incoming.payload.length then sync.fail .tooLarge
        else ok { sync with pending := none }
      else
        match decodeFedBounded (Wire.catalogMsg edge.cache.postcard) incoming mtReply
            maxCatalog with
        | .error e => sync.fail e
        | .ok bytes =>
            match edge.verifyAnnounced bytes pending.announced with
            | .error e => sync.fail e
            | .ok signed =>
                if !edge.cache.verify signed edge.key then sync.fail .rejected
                else
                  { ok { sync with pending := none } with
                    ingested :=
                      if env.wanted.wants edge.key signed.catalog.generation then
                        [(pending.fetch, bytes)]
                      else [] }

def handle : Outcome :=
  if incoming.family ≠ 8 || !edge.approves env.entered then sync.fail .unapproved
  else
    let sync := sync.expire now
    if incoming.messageType = mtSupport then handleSupport edge env sync incoming
    else if !sync.enabled then sync.ok
    else if incoming.messageType = mtAnnounce then handleAnnounce edge env sync now incoming
    else if incoming.messageType = mtGet then handleGet edge env sync incoming
    else if incoming.messageType = mtReply then handleReply edge env sync incoming
    else sync.ok

end CatalogSync

/-!
# What a call does
-/

inductive Op where
  | probe
  | tick
  | handle (incoming : Frame)

structure Call where
  env : Env
  now : Nat
  op : Op

def CatalogSync.call (sync : CatalogSync) (edge : Edge) (c : Call) : Outcome :=
  match c.op with
  | .probe => sync.startProbe edge c.env c.now
  | .tick => sync.tick edge c.env c.now
  | .handle incoming => sync.handle edge c.env c.now incoming

def Outcome.gets (o : Outcome) : List UInt64 :=
  (o.sent.filter (fun frame => decide (frame.messageType = mtGet))).map Frame.id

/-- The call has sent the GET: of the newest announcement, under the approval of now. -/
structure Asks (edge : Edge) (c : Call) (o : Outcome) (p : Pending) : Prop where
  sent : getFrame p.id ∈ o.sent
  deadline : p.deadline = c.now + requestTimeout
  announced : o.sync.remote = some p.announced
  fetched : (c.env.fetched.catalogs.beginFetch c.env.fetched.registry edge.key).snd = .ok p.fetch

/-- The frame that comes in answers the GET, and is of the peer and as new as announced. -/
structure Answers (edge : Edge) (c : Call) (p : Pending) (bytes : Bytes) (incoming : Frame)
    (signed : SignedCatalog) : Prop where
  op : c.op = .handle incoming
  kind : incoming.kind = .reply
  id : p.id = incoming.id
  error : incoming.error = none
  payload : decodeFedBounded (Wire.catalogMsg edge.cache.postcard) incoming mtReply maxCatalog =
    .ok bytes
  catalog : (Wire.signedCatalog edge.cache.postcard).fromBytes bytes = some signed
  verified : edge.cache.verify signed edge.key = true
  current : p.announced.generation < signed.catalog.generation ∨
    p.announced.generation = signed.catalog.generation ∧
      edge.catalogId signed = p.announced.catalogId

structure Did (edge : Edge) (c : Call) (s : CatalogSync) (o : Outcome) : Prop where
  nextId : s.nextId.toNat <= o.sync.nextId.toNat
  nextFetch : s.nextFetch.getD 0 <= o.sync.nextFetch.getD 0
  gets : forall id, id ∈ o.gets -> o.gets = [id] ∧
    (forall p, s.pending = some p -> p.deadline <= c.now) ∧ s.nextFetch.getD 0 <= c.now ∧
      c.now + checkInterval <= o.sync.nextFetch.getD 0 ∧ s.nextId.toNat <= id.toNat ∧
        id.toNat < o.sync.nextId.toNat
  pending : forall p, o.sync.pending = some p -> s.pending = some p ∨ Asks edge c o p
  ingested : forall fetch bytes, (fetch, bytes) ∈ o.ingested -> exists p incoming signed,
    s.pending = some p ∧ c.now < p.deadline ∧ fetch = p.fetch ∧
      Answers edge c p bytes incoming signed

variable {edge : Edge} {env : Env} {sync : CatalogSync} {now : Nat} {incoming : Frame} {c : Call}
  {o : Outcome} {op : Op}

namespace CatalogSync

theorem did_calm (hgets : o.gets = []) (hingested : o.ingested = [])
    (hid : sync.nextId.toNat <= o.sync.nextId.toNat)
    (hfetch : sync.nextFetch.getD 0 <= o.sync.nextFetch.getD 0)
    (hpending : forall p, o.sync.pending = some p -> sync.pending = some p) :
    Did edge c sync o where
  nextId := hid
  nextFetch := hfetch
  gets := by simp [hgets]
  pending := fun p hp => .inl (hpending p hp)
  ingested := by simp [hingested]

theorem did_same (hgets : o.gets = []) (hingested : o.ingested = [])
    (hid : o.sync.nextId = sync.nextId) (hfetch : o.sync.nextFetch = sync.nextFetch)
    (hpending : o.sync.pending = sync.pending) : Did edge c sync o :=
  did_calm hgets hingested (hid ▸ Nat.le_refl _) (hfetch ▸ Nat.le_refl _) (fun _ h => hpending ▸ h)

theorem requestId_ok {id : UInt64} {sync' : CatalogSync} (h : sync.requestId = some (id, sync')) :
    id = sync.nextId ∧ sync' = { sync with nextId := sync.nextId + 1 } ∧
      sync.nextId.toNat < (sync.nextId + 1).toNat := by
  unfold requestId at h
  split at h
  · rename_i hroom
    cases h
    refine ⟨rfl, rfl, ?_⟩
    rw [UInt64.toNat_add, show (1 : UInt64).toNat = 1 from rfl, Nat.mod_eq_of_lt hroom]
    exact Nat.lt_succ_self _
  · cases h

theorem startProbe_did : Did edge c sync (startProbe edge env sync now) := by
  fun_cases startProbe
  · exact did_same rfl rfl rfl rfl rfl
  · rename_i hid
    rcases requestId_ok hid with ⟨-, rfl, hless⟩
    exact did_calm rfl rfl (Nat.le_of_lt hless) (Nat.le_refl _) (fun _ h => h)

theorem handleSupport_did : Did edge c sync (handleSupport edge env sync incoming) := by
  fun_cases handleSupport
  all_goals
    try cases env.sent
  all_goals
    exact did_same rfl rfl rfl rfl rfl

theorem handleGet_did : Did edge c sync (handleGet edge env sync incoming) := by
  fun_cases handleGet
  case case4 built unavailable _ =>
    have hreply : (built.getD unavailable).messageType = mtReply := by
      cases hbuilt : built with
      | none => rfl
      | some reply =>
          rcases Option.bind_eq_some_iff.mp hbuilt with ⟨mine, -, hmine⟩
          rw [Edge.catalogReply, Option.ite_none_left_eq_some] at hmine
          exact Option.some.inj hmine.right ▸ rfl
    refine did_same ?_ rfl rfl rfl rfl
    simp [send, Outcome.gets, hreply, mtReply, mtGet]
  all_goals
    exact did_same rfl rfl rfl rfl rfl

theorem requestIfNeeded_did {s : CatalogSync} (hid : sync.nextId = s.nextId)
    (hfetch : sync.nextFetch = s.nextFetch) (hpending : sync.pending = s.pending) :
    Did edge ⟨env, now, op⟩ s (requestIfNeeded edge env sync now) := by
  have hdue : ¬(!sync.enabled || sync.pending.isSome ||
      sync.nextFetch.any (fun deadline => decide (now < deadline))) = true ->
        s.pending = none ∧ s.nextFetch.getD 0 <= now := by
    rw [← hfetch, ← hpending]
    clear hfetch hpending
    intro hfree
    cases hnext : sync.nextFetch <;> simp_all
  fun_cases requestIfNeeded
  case case4 hbusy _ _ _ _ _ _ =>
    have h := (hdue hbusy).right.trans (Nat.le_add_right now checkInterval)
    exact did_calm rfl rfl (hid ▸ Nat.le_refl _) h (fun _ h => hpending ▸ h)
  case case5 hbusy _ _ _ _ _ _ _ =>
    have h := (hdue hbusy).right.trans (Nat.le_add_right now checkInterval)
    exact did_calm rfl rfl (hid ▸ Nat.le_refl _) h (fun _ h => hpending ▸ h)
  case case6 hbusy announced hremote _ _ fetch hfetch id _ hnext =>
    have h := hdue hbusy
    rcases requestId_ok hnext with ⟨rfl, rfl, hless⟩
    exact {
      nextId := hid ▸ Nat.le_of_lt hless
      nextFetch := h.right.trans (Nat.le_add_right _ _)
      gets := by
        intro id hsent
        cases mem_singleton.mp hsent
        exact ⟨rfl, by simp [h.left], h.right, Nat.le_refl _, hid ▸ Nat.le_refl _, hless⟩
      pending := by
        intro p hp
        cases hp
        exact .inr ⟨mem_singleton_self _, rfl, hremote, hfetch⟩
      ingested := nofun }
  all_goals
    exact did_same rfl rfl hid hfetch hpending

theorem handleReply_did (hlive : forall p, sync.pending = some p -> c.now < p.deadline)
    (hop : c.op = .handle incoming) : Did edge c sync (handleReply edge env sync incoming) := by
  fun_cases handleReply edge env sync incoming
  case case3 => exact did_calm rfl rfl (Nat.le_refl _) (Nat.le_refl _) nofun
  case case7 p hfound herror bytes hbytes signed hsigned hverified _ =>
    rcases Option.filter_eq_some_iff.mp hfound with ⟨hp, hmatch⟩
    have hasked := of_decide_eq_true hmatch
    have hcurrent : (Wire.signedCatalog edge.cache.postcard).fromBytes bytes = some signed ∧
        (p.announced.generation < signed.catalog.generation ∨
          p.announced.generation = signed.catalog.generation ∧
            edge.catalogId signed = p.announced.catalogId) := by
      unfold Edge.verifyAnnounced at hsigned
      grind
    refine ⟨Nat.le_refl _, Nat.le_refl _, nofun, nofun, ?_⟩
    intro fetch bytes' hmem
    dsimp only at hmem
    split at hmem
    · cases mem_singleton.mp hmem
      exact ⟨p, incoming, signed, hp, hlive p hp, rfl, hop, hasked.left, hasked.right,
        Option.not_isSome_iff_eq_none.mp herror, hbytes, hcurrent.left, by simpa using hverified,
        hcurrent.right⟩
    · cases hmem
  all_goals
    exact did_same rfl rfl rfl rfl rfl

/-- What is overdue is no longer waited for. -/
theorem did_of_expire (h : Did edge c (sync.expire c.now) o) : Did edge c sync o where
  nextId := h.nextId
  nextFetch := h.nextFetch
  gets := by
    intro id hid
    have hgets := h.gets id hid
    refine ⟨hgets.left, fun p hp => ?_, hgets.right.right⟩
    by_contra hlive
    exact hlive (hgets.right.left p (Option.filter_eq_some_iff.mpr ⟨hp, by simpa using hlive⟩))
  pending := fun p hp => (h.pending p hp).imp_left (fun h => (Option.filter_eq_some_iff.mp h).left)
  ingested := by
    intro fetch bytes hmem
    rcases h.ingested fetch bytes hmem with ⟨p, incoming, signed, hp, hrest⟩
    exact ⟨p, incoming, signed, (Option.filter_eq_some_iff.mp hp).left, hrest⟩

theorem tick_did : Did edge ⟨env, now, op⟩ sync (tick edge env sync now) := by
  apply did_of_expire
  unfold tick
  dsimp only
  cases hdue : (sync.expire now).checkDue now with
  | none => exact requestIfNeeded_did rfl rfl rfl
  | some due =>
      rw [checkDue, Option.ite_none_left_eq_some] at hdue
      cases hdue.right
      dsimp only
      fun_cases announceLocal edge env _
      case case2 => exact did_same rfl rfl rfl rfl rfl
      case case4 announcement _ =>
        cases env.announced with
        | false => exact did_same rfl rfl rfl rfl rfl
        | true =>
            have h : Did edge ⟨env, now, op⟩ (sync.expire now) (requestIfNeeded edge env
              { sync.expire now with
                nextCheck := some (now + checkInterval), announced := some announcement } now) :=
              requestIfNeeded_did rfl rfl rfl
            exact ⟨h.nextId, h.nextFetch, h.gets, fun p hp => (h.pending p hp).imp_right
              (fun hasks => { hasks with sent := mem_cons_of_mem _ hasks.sent }), h.ingested⟩
      all_goals
        exact requestIfNeeded_did rfl rfl rfl

theorem handle_did :
    Did edge ⟨env, now, .handle incoming⟩ sync (handle edge env sync now incoming) := by
  fun_cases handle
  case case1 => exact did_same rfl rfl rfl rfl rfl
  all_goals
    apply did_of_expire
  case case2 => exact handleSupport_did
  case case4 =>
    fun_cases handleAnnounce
    case case3 => exact requestIfNeeded_did rfl rfl rfl
    all_goals
      exact did_same rfl rfl rfl rfl rfl
  case case5 => exact handleGet_did
  case case6 =>
    exact handleReply_did (fun p hp => of_decide_eq_true (Option.filter_eq_some_iff.mp hp).right) rfl
  all_goals
    exact did_same rfl rfl rfl rfl rfl

end CatalogSync

/-- The probe, or the answer to one. -/
def Supports (edge : Edge) (c : Call) (frame : Frame) : Prop :=
  match c.op with
  | .probe => exists id, frame = edge.support .request id
  | .tick => False
  | .handle incoming => incoming.kind = .request ∧ frame = edge.support .reply incoming.id

open CatalogSync in
theorem supports_of_mem {frame : Frame} (hoff : sync.enabled = false)
    (hsent : frame ∈ (sync.call edge c).sent) : Supports edge c frame := by
  rcases c with ⟨env, now, op⟩
  unfold call at hsent
  revert hsent
  cases op with
  | probe =>
      dsimp only
      fun_cases startProbe
      · nofun
      · intro hsent
        exact ⟨_, mem_singleton.mp hsent⟩
  | tick =>
      have hdue : (sync.expire now).checkDue now = none := if_pos (by simp [expire, hoff])
      have hidle : requestIfNeeded edge env (sync.expire now) now = (sync.expire now).ok :=
        if_pos (by simp [expire, hoff])
      dsimp only
      rw [tick, hdue]
      dsimp only
      rw [Outcome.andThen, ok]
      dsimp only
      rw [hidle]
      nofun
  | handle incoming =>
      dsimp only
      unfold handle
      split
      · nofun
      · dsimp only
        split
        · fun_cases handleSupport
          case case3 hkind _ _ _ _ =>
            cases env.sent
            all_goals
              exact fun hsent => ⟨hkind, mem_singleton.mp hsent⟩
          all_goals
            nofun
        · rw [if_pos (by simp [expire, hoff])]
          nofun

/-!
# Runs
-/

structure Moment where
  before : CatalogSync
  call : Call

def Moment.outcome (edge : Edge) (m : Moment) : Outcome :=
  m.before.call edge m.call

structure Live where
  sync : CatalogSync
  log : List Moment

def Live.step (edge : Edge) (live : Live) (c : Call) : Live where
  sync := (live.sync.call edge c).sync
  log := live.log ++ [⟨live.sync, c⟩]

/-- The calls of a session, in any order and at any time. -/
def Live.run (edge : Edge) (calls : List Call) : Live :=
  calls.foldl (Live.step edge) ⟨.new, []⟩

/-- What a call asks for and takes in, after the calls before it. -/
structure Solicited (edge : Edge) (before : List Moment) (m : Moment) : Prop where
  single : forall id, id ∈ (m.outcome edge).gets -> (m.outcome edge).gets = [id] ∧
    forall p, m.before.pending = some p -> p.deadline <= m.call.now
  apart : forall id, id ∈ (m.outcome edge).gets -> forall g, g ∈ before ->
    forall id', id' ∈ (g.outcome edge).gets -> id' ≠ id ∧ g.call.now + checkInterval <= m.call.now
  quiet : m.before.enabled = false -> forall frame, frame ∈ (m.outcome edge).sent ->
    Supports edge m.call frame
  ingested : forall fetch bytes, (fetch, bytes) ∈ (m.outcome edge).ingested ->
    exists g p incoming signed, g ∈ before ∧ Asks edge g.call (g.outcome edge) p ∧
      m.before.pending = some p ∧ m.call.now < p.deadline ∧ fetch = p.fetch ∧
        Answers edge m.call p bytes incoming signed

structure Live.Sound (edge : Edge) (live : Live) : Prop where
  each : Each (Solicited edge) live.log
  asked : forall g, g ∈ live.log -> forall id, id ∈ (g.outcome edge).gets ->
    id.toNat < live.sync.nextId.toNat ∧ g.call.now + checkInterval <= live.sync.nextFetch.getD 0
  pending : forall p, live.sync.pending = some p ->
    exists g, g ∈ live.log ∧ Asks edge g.call (g.outcome edge) p

theorem Live.Sound.step {live : Live} (h : live.Sound edge) (c : Call) :
    (live.step edge c).Sound edge := by
  have hdid : Did edge c live.sync (live.sync.call edge c) := by
    rcases c with ⟨env, now, op⟩
    cases op with
    | probe => exact CatalogSync.startProbe_did
    | tick => exact CatalogSync.tick_did
    | handle incoming => exact CatalogSync.handle_did
  refine ⟨each_append.mpr ⟨h.each, ?_, trivial⟩, ?_, ?_⟩
  · exact {
      single := fun id hid => ⟨(hdid.gets id hid).left, (hdid.gets id hid).right.left⟩
      apart := by
        intro id hid g hg id' hid'
        have hthis := (hdid.gets id hid).right.right
        have hthat := h.asked g hg id' hid'
        refine ⟨?_, hthat.right.trans hthis.left⟩
        rintro rfl
        omega
      quiet := fun hoff _ hsent => supports_of_mem hoff hsent
      ingested := by
        intro fetch bytes hbytes
        rcases hdid.ingested fetch bytes hbytes with ⟨p, incoming, signed, hp, hrest⟩
        rcases h.pending p hp with ⟨g, hg, hasks⟩
        exact ⟨g, p, incoming, signed, hg, hasks, hp, hrest⟩ }
  · intro g hg id hid
    rcases mem_append.mp hg with hg | hg
    · have hasked := h.asked g hg id hid
      exact ⟨hasked.left.trans_le hdid.nextId, hasked.right.trans hdid.nextFetch⟩
    · cases mem_singleton.mp hg
      have hthis := (hdid.gets id hid).right.right.right
      exact ⟨hthis.right.right, hthis.left⟩
  · intro p hp
    rcases hdid.pending p hp with hwas | hasks
    · rcases h.pending p hwas with ⟨g, hg, hasks⟩
      exact ⟨g, mem_append_left _ hg, hasks⟩
    · exact ⟨⟨live.sync, c⟩, mem_append_right _ (mem_singleton_self _), hasks⟩

theorem sync_takes_what_it_asked_for (edge : Edge) (calls : List Call) :
    Each (Solicited edge) (Live.run edge calls).log := by
  have hsound : (Live.run edge calls).Sound edge := by
    unfold Live.run
    induction calls using reverseRecOn with
    | nil => exact ⟨trivial, fun _ hg => (nomatch hg), fun _ hp => nomatch hp⟩
    | append_singleton calls c ih =>
        rw [foldl_append, foldl_cons, foldl_nil]
        exact ih.step c
  exact hsound.each

end Rabbithole.FedCatalog
