import Rabbithole.Directory.Cache

/-!
# What the history holds

A statement once stored stays, or a newer one of its endpoint and key stays in its
place: storing never loses ground, and what verifies now verifies at every later time.
-/

namespace Rabbithole.Directory

open Foundation List Option

variable {v : Verifier} {row row' held : DirectoryServer} {claim : VerifiedDescriptor}
  {now later : Int64} {history rows : List DirectoryServer}

/-!
## Claims
-/

section

variable (hname : row.name = row'.name) (hendpoint : row.endpoint = row'.endpoint)
  (hproof : row.proof = row'.proof)
include hname hendpoint hproof

theorem verifiedClaim_congr : v.verifiedClaim row = v.verifiedClaim row' := by
  unfold Verifier.verifiedClaim Verifier.verifyGossip Verifier.verifyAnnounce
  rw [hname, hendpoint, hproof]

theorem verify_congr : v.verify row now = v.verify row' now := by
  unfold Verifier.verify
  rw [hproof, verifiedClaim_congr hname hendpoint hproof]

theorem claimAt_congr : claimAt v row now = claimAt v row' now := by
  unfold claimAt
  rw [verify_congr hname hendpoint hproof]

end

/-- A statement verifies, fresh or stale, unless it claims to be from the future. -/
theorem claimAt_eq_some_iff :
    claimAt v row now = some claim <->
      storedClaim v row = some claim ∧ 0 <= now.toInt ∧ 0 <= claim.issuedAtMs.toInt ∧
        claim.issuedAtMs.toInt <= Verifier.saturate (now.toInt + futureSkewMs) := by
  unfold claimAt storedClaim Verifier.verify
  cases hproof : row.proof with
  | none =>
      have hnone : v.verifiedClaim row = none := by
        unfold Verifier.verifiedClaim
        rw [hproof]
      simp [hnone]
  | some proof =>
      cases hclaim : v.verifiedClaim row with
      | none => simp
      | some found =>
          rcases found with ⟨older, maxAge⟩
          simp only [isNone_some, Bool.false_eq_true, if_false, map_some,
            Option.some.injEq]
          by_cases hfuture : now < 0 ∨ older.issuedAtMs < 0 ∨
              Verifier.saturate (now.toInt + futureSkewMs) < older.issuedAtMs.toInt
          · rw [if_pos hfuture]
            constructor
            · intro h
              cases h
            · rintro ⟨rfl, hnow, hissued, hskew⟩
              rw [Int64.lt_iff_toInt_lt, Int64.lt_iff_toInt_lt] at hfuture
              rcases hfuture with hlt | hlt | hlt
              · exact absurd hnow (Int.not_le.mpr hlt)
              · exact absurd hissued (Int.not_le.mpr hlt)
              · exact absurd hskew (Int.not_le.mpr hlt)
          · rw [if_neg hfuture]
            have hbounds : 0 <= now.toInt ∧ 0 <= older.issuedAtMs.toInt ∧
                older.issuedAtMs.toInt <= Verifier.saturate (now.toInt + futureSkewMs) := by
              rw [Int64.lt_iff_toInt_lt, Int64.lt_iff_toInt_lt] at hfuture
              refine ⟨?_, ?_, ?_⟩
              · exact Int.not_lt.mp (fun h => hfuture (Or.inl h))
              · exact Int.not_lt.mp (fun h => hfuture (Or.inr (Or.inl h)))
              · exact Int.not_lt.mp (fun h => hfuture (Or.inr (Or.inr h)))
            have hsame : (older = claim) <->
                older = claim ∧ 0 <= now.toInt ∧ 0 <= claim.issuedAtMs.toInt ∧
                  claim.issuedAtMs.toInt <= Verifier.saturate (now.toInt + futureSkewMs) :=
              ⟨fun h => ⟨h, h ▸ hbounds⟩, And.left⟩
            by_cases hage : maxAge <= Verifier.saturate (now.toInt - older.issuedAtMs.toInt)
            · rw [if_pos hage, <- hsame]
              exact some_inj
            · rw [if_neg hage, <- hsame]
              exact some_inj

theorem storedClaim_of_claimAt (h : claimAt v row now = some claim) :
    storedClaim v row = some claim :=
  (claimAt_eq_some_iff.mp h).left

theorem saturate_mono {n k : Int} (h : n <= k) : Verifier.saturate n <= Verifier.saturate k := by
  unfold Verifier.saturate
  omega

theorem claimAt_later (hle : now.toInt <= later.toInt) (h : claimAt v row now = some claim) :
    claimAt v row later = some claim := by
  rcases claimAt_eq_some_iff.mp h with ⟨hstored, hnow, hissued, hskew⟩
  apply claimAt_eq_some_iff.mpr
  refine ⟨hstored, Int.le_trans hnow hle, hissued, Int.le_trans hskew ?_⟩
  exact saturate_mono (Int.add_le_add_right hle _)

/-!
## Storing
-/

/-- The history has a statement of the endpoint and key that is not older than so. -/
def HeldSince (v : Verifier) (history : List DirectoryServer) (endpoint key : List Char)
    (issued : Int64) : Prop :=
  exists held claim, held ∈ history ∧ held.endpoint = endpoint ∧
    storedClaim v held = some claim ∧ claim.publicKey = key ∧ issued <= claim.issuedAtMs

/-- Every statement is small enough and verifies. -/
def Storable (v : Verifier) (now : Int64) (history : List DirectoryServer) : Prop :=
  forall held, held ∈ history -> bounded held = true ∧ exists claim, claimAt v held now = some claim

theorem claimAt_heldRow (row : DirectoryServer) : claimAt v (heldRow row) now = claimAt v row now :=
  claimAt_congr rfl rfl rfl

theorem storedClaim_heldRow (row : DirectoryServer) :
    storedClaim v (heldRow row) = storedClaim v row := by
  have hsame : v.verifiedClaim (heldRow row) = v.verifiedClaim row :=
    verifiedClaim_congr rfl rfl rfl
  unfold storedClaim
  rw [hsame]

theorem bounded_heldRow (h : bounded row = true) : bounded (heldRow row) = true := by
  unfold bounded at *
  simp only [Bool.and_eq_true, decide_eq_true_eq] at *
  rcases h with ⟨⟨⟨⟨⟨hname, hendpoint⟩, -⟩, -⟩, -⟩, hproof⟩
  exact ⟨⟨⟨⟨⟨hname, hendpoint⟩, Nat.zero_le _⟩, Nat.zero_le _⟩, rfl⟩, hproof⟩

theorem sameSubject_iff :
    sameSubject v row claim held = true <->
      held.endpoint = row.endpoint ∧
        exists older, storedClaim v held = some older ∧ older.publicKey = claim.publicKey := by
  unfold sameSubject
  rw [Bool.and_eq_true, decide_eq_true_eq, Option.any_eq_true]
  simp

/-- What storing a verified row comes to: it stays out for a newer statement of its
endpoint and key, or takes the place of one that is not newer, or comes in beside. -/
theorem placed_cases (v : Verifier) (history : List DirectoryServer) (row : DirectoryServer)
    (claim : VerifiedDescriptor) :
    (placed v history row claim = history ∧
        HeldSince v history row.endpoint claim.publicKey claim.issuedAtMs) ∨
      (exists front back, placed v history row claim = front ++ back ++ [heldRow row] ∧
        (history = front ++ back ∨
          exists old older, history = front ++ old :: back ∧ old.endpoint = row.endpoint ∧
            storedClaim v old = some older ∧ older.publicKey = claim.publicKey ∧
            older.issuedAtMs <= claim.issuedAtMs)) := by
  unfold placed
  cases hfind : history.find? (sameSubject v row claim) with
  | none =>
      right
      exact ⟨history, [], by simp, Or.inl (by simp)⟩
  | some old =>
      have hsame := find?_some hfind
      rcases sameSubject_iff.mp hsame with ⟨hendpoint, older, holder, hkey⟩
      simp only [holder, any_some, decide_eq_true_eq]
      split
      · rename_i hnewer
        left
        exact ⟨rfl, old, older, mem_of_find?_eq_some hfind, hendpoint, holder, hkey,
          Int64.le_of_lt hnewer⟩
      · rename_i hnot
        right
        rcases find?_eq_some_iff_append.mp hfind with ⟨-, front, back, hsplit, hbefore⟩
        refine ⟨front, back, ?_, Or.inr ⟨old, older, hsplit, hendpoint, holder, hkey,
          Int64.not_lt.mp hnot⟩⟩
        have hno : forall b, b ∈ front -> ¬ sameSubject v row claim b = true := by
          intro b hb
          have hfalse := hbefore b hb
          rw [Bool.not_eq_true'] at hfalse
          rw [hfalse]
          exact Bool.false_ne_true
        rw [hsplit, eraseP_append_right _ hno, eraseP_cons_of_pos hsame]

theorem remembered_cases (v : Verifier) (now : Int64) (history : List DirectoryServer)
    (row : DirectoryServer) :
    (remembered v now history row = history ∧
        (bounded row = true -> claimAt v row now = none)) ∨
      (exists claim, bounded row = true ∧ claimAt v row now = some claim ∧
        remembered v now history row = placed v history row claim) := by
  unfold remembered
  cases hbounded : bounded row with
  | false => exact Or.inl ⟨rfl, fun h => by cases h⟩
  | true =>
      cases hclaim : claimAt v row now with
      | none => exact Or.inl ⟨rfl, fun _ => rfl⟩
      | some claim => exact Or.inr ⟨claim, rfl, rfl, rfl⟩

theorem HeldSince.remembered {endpoint key : List Char} {issued : Int64}
    (h : HeldSince v history endpoint key issued) (now : Int64) (row : DirectoryServer) :
    HeldSince v (remembered v now history row) endpoint key issued := by
  rcases h with ⟨held, older, hmem, hendpoint, hstored, hkey, hissued⟩
  rcases remembered_cases v now history row with
    ⟨hsame, -⟩ | ⟨claim, -, hclaim, hplaced⟩
  · rw [hsame]
    exact ⟨held, older, hmem, hendpoint, hstored, hkey, hissued⟩
  · rw [hplaced]
    rcases placed_cases v history row claim with
      ⟨hsame, -⟩ | ⟨front, back, hnew, hsplit | ⟨old, replaced, hsplit, hold, holdStored, holdKey, hle⟩⟩
    · rw [hsame]
      exact ⟨held, older, hmem, hendpoint, hstored, hkey, hissued⟩
    · rw [hnew, <- hsplit]
      exact ⟨held, older, mem_append_left _ hmem, hendpoint, hstored, hkey, hissued⟩
    · rw [hnew]
      rw [hsplit] at hmem
      rcases mem_append.mp hmem with hfront | hrest
      · exact ⟨held, older, mem_append_left _ (mem_append_left _ hfront), hendpoint,
          hstored, hkey, hissued⟩
      · rcases mem_cons.mp hrest with heq | hback
        · rw [heq] at hendpoint hstored
          rw [holdStored] at hstored
          cases hstored
          refine ⟨heldRow row, claim, mem_append_right _ (mem_singleton.mpr rfl), ?_, ?_, ?_,
            Int64.le_trans hissued hle⟩
          · exact hold.symm.trans hendpoint
          · rw [storedClaim_heldRow]
            exact storedClaim_of_claimAt hclaim
          · rw [<- holdKey, hkey]
        · exact ⟨held, older, mem_append_left _ (mem_append_right _ hback), hendpoint,
            hstored, hkey, hissued⟩

theorem heldSince_remembered (hbounded : bounded row = true)
    (hclaim : claimAt v row now = some claim) (history : List DirectoryServer) :
    HeldSince v (remembered v now history row) row.endpoint claim.publicKey claim.issuedAtMs := by
  rcases remembered_cases v now history row with
    ⟨-, hnone⟩ | ⟨claim', -, hclaim', hplaced⟩
  · rw [hnone hbounded] at hclaim
    cases hclaim
  · rw [hclaim] at hclaim'
    cases hclaim'
    rw [hplaced]
    rcases placed_cases v history row claim with
      ⟨hsame, hheld⟩ | ⟨front, back, hnew, -⟩
    · rw [hsame]
      exact hheld
    · rw [hnew]
      refine ⟨heldRow row, claim, mem_append_right _ (mem_singleton.mpr rfl), rfl, ?_, rfl,
        Int64.le_refl _⟩
      rw [storedClaim_heldRow]
      exact storedClaim_of_claimAt hclaim

theorem Storable.remembered (h : Storable v now history) (row : DirectoryServer) :
    Storable v now (remembered v now history row) := by
  rcases remembered_cases v now history row with
    ⟨hsame, -⟩ | ⟨claim, hbounded, hclaim, hplaced⟩
  · rw [hsame]
    exact h
  · rw [hplaced]
    rcases placed_cases v history row claim with
      ⟨hsame, -⟩ | ⟨front, back, hnew, hsplit⟩
    · rw [hsame]
      exact h
    · rw [hnew]
      intro held hmem
      rcases mem_append.mp hmem with hold | hrow
      · apply h held
        rcases hsplit with hsplit | ⟨old, -, hsplit, -⟩
        · rw [hsplit]
          exact hold
        · rw [hsplit]
          rcases mem_append.mp hold with hfront | hback
          · exact mem_append_left _ hfront
          · exact mem_append_right _ (mem_cons_of_mem _ hback)
      · rw [mem_singleton.mp hrow]
        exact ⟨bounded_heldRow hbounded, claim, by rw [claimAt_heldRow, hclaim]⟩

theorem length_remembered (now : Int64) (history : List DirectoryServer) (row : DirectoryServer) :
    history.length <= (remembered v now history row).length := by
  rcases remembered_cases v now history row with
    ⟨hsame, -⟩ | ⟨claim, -, -, hplaced⟩
  · rw [hsame]
  · rw [hplaced]
    rcases placed_cases v history row claim with
      ⟨hsame, -⟩ | ⟨front, back, hnew, hsplit⟩
    · rw [hsame]
    · rw [hnew]
      rcases hsplit with hsplit | ⟨old, -, hsplit, -⟩
      · rw [hsplit]
        simp
      · rw [hsplit]
        simp only [length_append, length_cons, length_nil]
        omega

theorem length_remembered_le (now : Int64) (history : List DirectoryServer)
    (row : DirectoryServer) : (remembered v now history row).length <= history.length + 1 := by
  rcases remembered_cases v now history row with
    ⟨hsame, -⟩ | ⟨claim, -, -, hplaced⟩
  · rw [hsame]
    exact Nat.le_succ _
  · rw [hplaced]
    rcases placed_cases v history row claim with
      ⟨hsame, -⟩ | ⟨front, back, hnew, hsplit⟩
    · rw [hsame]
      exact Nat.le_succ _
    · rw [hnew, length_append, length_singleton]
      apply Nat.add_le_add_right
      rcases hsplit with hsplit | ⟨old, -, hsplit, -⟩
      · rw [hsplit]
      · rw [hsplit, length_append, length_append, length_cons]
        exact Nat.add_le_add_left (Nat.le_succ _) _

/-!
## A list of rows
-/

/-- The history with the statements of some rows, when there were no limit. -/
def rememberedAll (v : Verifier) (now : Int64) (history rows : List DirectoryServer) :
    List DirectoryServer :=
  rows.foldl (remembered v now) history

theorem length_rememberedAll (now : Int64) (history rows : List DirectoryServer) :
    history.length <= (rememberedAll v now history rows).length := by
  induction rows generalizing history with
  | nil => exact Nat.le_refl _
  | cons row rest ih =>
      exact Nat.le_trans (length_remembered now history row) (ih (remembered v now history row))

theorem length_rememberedAll_le (now : Int64) (history rows : List DirectoryServer) :
    (rememberedAll v now history rows).length <= history.length + rows.length := by
  induction rows generalizing history with
  | nil => exact Nat.le_refl _
  | cons row rest ih =>
      have hfirst := length_remembered_le (v := v) now history row
      have hrest : (rememberedAll v now history (row :: rest)).length <=
          (remembered v now history row).length + rest.length :=
        ih (remembered v now history row)
      rw [length_cons]
      omega

theorem foldl_rememberProof (h : (rememberedAll v now history rows).length <= maxCacheRows) :
    rows.foldl (rememberProof v now) history = rememberedAll v now history rows := by
  induction rows generalizing history with
  | nil => rfl
  | cons row rest ih =>
      have hroom : (remembered v now history row).length <= maxCacheRows :=
        Nat.le_trans (length_rememberedAll now (remembered v now history row) rest) h
      have hfirst : rememberProof v now history row = remembered v now history row := by
        unfold rememberProof capped
        rw [if_neg (Nat.not_lt.mpr hroom)]
      rw [foldl_cons, hfirst]
      exact ih h

theorem HeldSince.rememberedAll {endpoint key : List Char} {issued : Int64}
    (h : HeldSince v history endpoint key issued) (now : Int64) (rows : List DirectoryServer) :
    HeldSince v (rememberedAll v now history rows) endpoint key issued := by
  induction rows generalizing history with
  | nil => exact h
  | cons row rest ih => exact ih (h.remembered now row)

theorem heldSince_rememberedAll (hrow : row ∈ rows) (hbounded : bounded row = true)
    (hclaim : claimAt v row now = some claim) (history : List DirectoryServer) :
    HeldSince v (rememberedAll v now history rows) row.endpoint claim.publicKey
      claim.issuedAtMs := by
  induction rows generalizing history with
  | nil => cases hrow
  | cons first rest ih =>
      rcases mem_cons.mp hrow with rfl | hin
      · exact (heldSince_remembered hbounded hclaim history).rememberedAll now rest
      · exact ih hin (remembered v now history first)

theorem Storable.rememberedAll (h : Storable v now history) (rows : List DirectoryServer) :
    Storable v now (rememberedAll v now history rows) := by
  induction rows generalizing history with
  | nil => exact h
  | cons row rest ih => exact ih (h.remembered row)

end Rabbithole.Directory
