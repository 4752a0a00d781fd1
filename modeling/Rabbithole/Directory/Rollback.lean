import Rabbithole.Directory.History

/-!
# No rollback

Whatever comes in between, a listing does not go back behind a statement that it has
shown verified: a row of the same endpoint and key shows a newer one in its place.
-/

namespace Rabbithole.Directory

open Foundation Federation RateLimit Binkp List

variable {v : Verifier} {row held : DirectoryServer} {claim : VerifiedDescriptor} {now : Int64}
  {history : List DirectoryServer}

/-!
## One row
-/

theorem mem_newer {previous : List DirectoryServer} {next : VerifiedDescriptor}
    {entry : DirectoryServer × Int64} :
    entry ∈ newer v previous row next now <->
      entry.fst ∈ previous ∧ entry.fst.endpoint = row.endpoint ∧
        exists claim, claimAt v entry.fst now = some claim ∧ claim.publicKey = next.publicKey ∧
          next.issuedAtMs < claim.issuedAtMs ∧ entry.snd = claim.issuedAtMs := by
  unfold newer
  rw [mem_filterMap]
  constructor
  · rintro ⟨held, hmem, hentry⟩
    split at hentry
    · rename_i hendpoint
      split at hentry
      · cases hentry
      · rename_i claim hclaim
        split at hentry
        · rename_i hnewer
          cases hentry
          exact ⟨hmem, hendpoint, claim, hclaim, hnewer.left, hnewer.right, rfl⟩
        · cases hentry
    · cases hentry
  · rintro ⟨hmem, hendpoint, claim, hclaim, hkey, hissued, hsnd⟩
    refine ⟨entry.fst, hmem, ?_⟩
    rw [if_pos hendpoint, hclaim]
    simp only []
    rw [if_pos ⟨hkey, hissued⟩, <- hsnd]

theorem maxByKey_eq_none {found : List (DirectoryServer × Int64)} :
    maxByKey found = none <-> found = [] := by
  cases found with
  | nil => exact Iff.intro (fun _ => rfl) (fun _ => rfl)
  | cons entry rest =>
      constructor
      · intro hnone
        cases hnone
      · intro hnil
        cases hnil

theorem laterMax_cases (best entry : DirectoryServer × Int64) :
    (laterMax best entry = best ∨ laterMax best entry = entry) ∧
      best.snd <= (laterMax best entry).snd ∧ entry.snd <= (laterMax best entry).snd := by
  unfold laterMax
  split
  · rename_i hle
    exact ⟨Or.inr rfl, hle, Int64.le_refl _⟩
  · rename_i hlt
    exact ⟨Or.inl rfl, Int64.le_refl _, Int64.le_of_lt (Int64.not_le.mp hlt)⟩

theorem foldl_laterMax (rest : List (DirectoryServer × Int64)) :
    forall entry : DirectoryServer × Int64,
      rest.foldl laterMax entry ∈ entry :: rest ∧
        forall other, other ∈ entry :: rest -> other.snd <= (rest.foldl laterMax entry).snd := by
  induction rest with
  | nil =>
      intro entry
      refine ⟨mem_cons_self, ?_⟩
      intro other hother
      rw [mem_singleton.mp hother]
      exact Int64.le_refl _
  | cons next rest ih =>
      intro entry
      rw [foldl_cons]
      rcases ih (laterMax entry next) with ⟨hmem, hgreatest⟩
      rcases laterMax_cases entry next with ⟨hone, hentry, hnext⟩
      have hkept := hgreatest _ mem_cons_self
      constructor
      · rcases mem_cons.mp hmem with heq | hrest
        · rw [heq]
          rcases hone with hone | hone
          · rw [hone]
            exact mem_cons_self
          · rw [hone]
            exact mem_cons_of_mem _ mem_cons_self
        · exact mem_cons_of_mem _ (mem_cons_of_mem _ hrest)
      · intro other hother
        rcases mem_cons.mp hother with rfl | hother
        · exact Int64.le_trans hentry hkept
        · rcases mem_cons.mp hother with rfl | hrest
          · exact Int64.le_trans hnext hkept
          · exact hgreatest other (mem_cons_of_mem _ hrest)

theorem of_maxByKey {found : List (DirectoryServer × Int64)} (h : maxByKey found = some held) :
    exists issued, (held, issued) ∈ found ∧
      forall other, other ∈ found -> other.snd <= issued := by
  cases found with
  | nil => cases h
  | cons entry rest =>
      rcases foldl_laterMax rest entry with ⟨hmem, hgreatest⟩
      cases h
      exact ⟨_, hmem, hgreatest⟩

/-- What a row that verifies comes to: it stays, and no stored statement of its endpoint
and key is newer, or it shows the newest of these. -/
theorem retainNewer_cases (history : List DirectoryServer)
    (hclaim : claimAt v row now = some claim) :
    (retainNewer v history now row = row ∧
        forall held older, held ∈ history -> held.endpoint = row.endpoint ->
          claimAt v held now = some older -> older.publicKey = claim.publicKey ->
            older.issuedAtMs <= claim.issuedAtMs) ∨
      (exists held older, held ∈ history ∧ held.endpoint = row.endpoint ∧
        claimAt v held now = some older ∧ older.publicKey = claim.publicKey ∧
        claim.issuedAtMs < older.issuedAtMs ∧
        retainNewer v history now row = { row with name := held.name, proof := held.proof } ∧
        forall other claim', other ∈ history -> other.endpoint = row.endpoint ->
          claimAt v other now = some claim' -> claim'.publicKey = claim.publicKey ->
            claim'.issuedAtMs <= older.issuedAtMs) := by
  unfold retainNewer
  rw [hclaim]
  simp only []
  cases hmax : maxByKey (newer v history row claim now) with
  | none =>
      left
      refine ⟨rfl, ?_⟩
      intro held older hheld hendpoint holder hkey
      apply Int64.not_lt.mp
      intro hlt
      have hmem : (held, older.issuedAtMs) ∈ newer v history row claim now :=
        mem_newer.mpr ⟨hheld, hendpoint, older, holder, hkey, hlt, rfl⟩
      rw [maxByKey_eq_none.mp hmax] at hmem
      cases hmem
  | some held =>
      right
      rcases of_maxByKey hmax with ⟨issued, hmem, hgreatest⟩
      rcases mem_newer.mp hmem with ⟨hheld, hendpoint, older, holder, hkey, hlt, hissued⟩
      refine ⟨held, older, hheld, hendpoint, holder, hkey, hlt, rfl, ?_⟩
      intro other claim' hother hendpoint' hclaim' hkey'
      by_cases hnewer : claim.issuedAtMs < claim'.issuedAtMs
      · have hin : (other, claim'.issuedAtMs) ∈ newer v history row claim now :=
          mem_newer.mpr ⟨hother, hendpoint', claim', hclaim', hkey', hnewer, rfl⟩
        have hle := hgreatest _ hin
        rw [show issued = older.issuedAtMs from hissued] at hle
        exact hle
      · exact Int64.le_trans (Int64.not_lt.mp hnewer) (Int64.le_of_lt hlt)

theorem retainNewer_of_none (h : claimAt v row now = none) :
    retainNewer v history now row = row := by
  unfold retainNewer
  rw [h]

theorem endpoint_retainNewer (v : Verifier) (history : List DirectoryServer) (now : Int64)
    (row : DirectoryServer) : (retainNewer v history now row).endpoint = row.endpoint := by
  unfold retainNewer
  split
  · rfl
  · split
    · rfl
    · rfl

theorem bounded_of_parts (hheld : bounded held = true) (hrow : bounded row = true) :
    bounded { row with name := held.name, proof := held.proof } = true := by
  unfold bounded at *
  simp only [Bool.and_eq_true, decide_eq_true_eq] at *
  rcases hheld with ⟨⟨⟨⟨⟨hname, -⟩, -⟩, -⟩, -⟩, hproof⟩
  rcases hrow with ⟨⟨⟨⟨⟨-, hendpoint⟩, hdescription⟩, hcount⟩, hlisteners⟩, -⟩
  exact ⟨⟨⟨⟨⟨hname, hendpoint⟩, hdescription⟩, hcount⟩, hlisteners⟩, hproof⟩

theorem le_issued_of_held (hstorable : Storable v now history) {key : List Char}
    {issued : Int64} (hheld : HeldSince v history row.endpoint key issued)
    {shownClaim : VerifiedDescriptor}
    (hshown : claimAt v (retainNewer v history now row) now = some shownClaim)
    (hkey : shownClaim.publicKey = key) : issued <= shownClaim.issuedAtMs := by
  rcases hheld with ⟨held, older, hmem, hendpoint, hstored, holdKey, hissued⟩
  have holder : claimAt v held now = some older := by
    rcases hstorable held hmem with ⟨-, claim, hclaim⟩
    have hsame := storedClaim_of_claimAt hclaim
    rw [hstored] at hsame
    cases hsame
    exact hclaim
  cases hrow : claimAt v row now with
  | none =>
      rw [retainNewer_of_none hrow, hrow] at hshown
      cases hshown
  | some claim =>
      rcases retainNewer_cases history hrow with
        ⟨hstays, hnone⟩ | ⟨newest, best, hin, hnewEndpoint, hbest, hbestKey, -, hshows, hall⟩
      · rw [hstays, hrow] at hshown
        cases hshown
        exact Int64.le_trans hissued
          (hnone held older hmem hendpoint holder (holdKey.trans hkey.symm))
      · have hclaim : claimAt v (retainNewer v history now row) now = claimAt v newest now := by
          rw [hshows]
          exact claimAt_congr rfl hnewEndpoint.symm rfl
        rw [hclaim, hbest] at hshown
        cases hshown
        exact Int64.le_trans hissued
          (hall held older hmem hendpoint holder (holdKey.trans (hkey.symm.trans hbestKey)))

/-!
## One update
-/

theorem of_shrink {t : ListingText} {fuel : Nat} {saved saved' : CachedListing}
    (h : shrink t fuel saved = some saved') :
    t.size (t.write saved') <= maxCacheBytes ∧ saved'.version = saved.version ∧
      saved'.sourceKey = saved.sourceKey ∧ saved'.sourceLabel = saved.sourceLabel ∧
      saved'.fetchedAtMs = saved.fetchedAtMs ∧
      saved'.servers.length <= saved.servers.length ∧
      forall row, row ∈ saved'.servers -> row ∈ saved.servers := by
  induction fuel generalizing saved with
  | zero =>
      unfold shrink at h
      split at h
      · rename_i hfits
        cases h
        exact ⟨hfits, rfl, rfl, rfl, rfl, Nat.le_refl _, fun _ hrow => hrow⟩
      · cases h
  | succ fuel ih =>
      unfold shrink at h
      split at h
      · rename_i hfits
        cases h
        exact ⟨hfits, rfl, rfl, rfl, rfl, Nat.le_refl _, fun _ hrow => hrow⟩
      · simp only [] at h
        split at h
        · rcases ih h with ⟨hfits, hversion, hkey, hlabel, hfetched, hlength, hrows⟩
          exact ⟨hfits, hversion, hkey, hlabel, hfetched, hlength, hrows⟩
        · split at h
          · cases h
          · rcases ih h with ⟨hfits, hversion, hkey, hlabel, hfetched, hlength, hrows⟩
            refine ⟨hfits, hversion, hkey, hlabel, hfetched, ?_, ?_⟩
            · exact Nat.le_trans hlength (by rw [length_dropLast]; exact Nat.sub_le _ _)
            · exact fun row hrow => dropLast_subset _ (hrows row hrow)

/-- Neither limit has dropped anything from the history. -/
structure Whole (t : ListingText) (v : Verifier) (sourceKey : List Char)
    (previous : Option CachedListing) (r : Refresh) : Prop where
  rows : (rememberedAll v r.fetchedAtMs
    (rememberedAll v r.fetchedAtMs [] (storedRows sourceKey previous))
    (shown v sourceKey previous r)).length <= maxCacheRows
  bytes : exists saved,
    shrink t ((snapshot v sourceKey previous r).history.length
      + (snapshot v sourceKey previous r).servers.length) (snapshot v sourceKey previous r) =
        some saved ∧
      saved.history = (snapshot v sourceKey previous r).history

variable {t : ListingText} {sourceKey : List Char} {previous : Option CachedListing} {r : Refresh}

theorem shrink_of_fits {saved : CachedListing} (fuel : Nat)
    (h : t.size (t.write saved) <= maxCacheBytes) : shrink t fuel saved = some saved := by
  unfold shrink
  rw [if_pos h]

theorem length_history_le (v : Verifier) (sourceKey : List Char)
    (previous : Option CachedListing) (r : Refresh) : (rememberedAll v r.fetchedAtMs
        (rememberedAll v r.fetchedAtMs [] (storedRows sourceKey previous))
        (shown v sourceKey previous r)).length <=
      (storedRows sourceKey previous).length + r.rows.length := by
  have hfirst := length_rememberedAll_le (v := v) r.fetchedAtMs [] (storedRows sourceKey previous)
  have hsecond := length_rememberedAll_le (v := v) r.fetchedAtMs
    (rememberedAll v r.fetchedAtMs [] (storedRows sourceKey previous)) (shown v sourceKey previous r)
  have hshown : (shown v sourceKey previous r).length = r.rows.length := length_map _
  rw [length_nil, Nat.zero_add] at hfirst
  rw [hshown] at hsecond
  exact Nat.le_trans hsecond (Nat.add_le_add_right hfirst _)

theorem Whole.recalled_eq (h : Whole t v sourceKey previous r) :
    recalled v sourceKey previous r.fetchedAtMs =
      rememberedAll v r.fetchedAtMs [] (storedRows sourceKey previous) :=
  foldl_rememberProof (Nat.le_trans (length_rememberedAll _ _ _) h.rows)

theorem Whole.history_eq (h : Whole t v sourceKey previous r) :
    (snapshot v sourceKey previous r).history =
      rememberedAll v r.fetchedAtMs (recalled v sourceKey previous r.fetchedAtMs)
        (shown v sourceKey previous r) := by
  apply foldl_rememberProof
  rw [h.recalled_eq]
  exact h.rows

theorem storable_nil (v : Verifier) (now : Int64) : Storable v now [] :=
  fun _ h => absurd h not_mem_nil

theorem Whole.storable_recalled (h : Whole t v sourceKey previous r) :
    Storable v r.fetchedAtMs (recalled v sourceKey previous r.fetchedAtMs) := by
  rw [h.recalled_eq]
  exact (storable_nil v r.fetchedAtMs).rememberedAll _

theorem Whole.storable_history (h : Whole t v sourceKey previous r) :
    Storable v r.fetchedAtMs (snapshot v sourceKey previous r).history := by
  rw [h.history_eq]
  exact h.storable_recalled.rememberedAll _

theorem accepts_iff {label : List Char} {now : Int64} :
    Directory.accepts sourceKey label now = true <->
      sourceKey.isEmpty = false ∧ textLen sourceKey <= 256 ∧ textLen label <= 256 ∧ 0 <= now := by
  unfold Directory.accepts
  simp only [Bool.and_eq_true, decide_eq_true_eq, Bool.not_eq_true', and_assoc]

/-- What is saved is read back, with the whole history. -/
theorem nextSaved_eq (haccepted : accepts sourceKey r.sourceLabel r.fetchedAtMs = true)
    (h : Whole t v sourceKey previous r) :
    exists saved, nextSaved t v sourceKey previous r = some saved ∧
      saved.sourceKey = sourceKey ∧
      saved.history = (snapshot v sourceKey previous r).history := by
  rcases h.bytes with ⟨saved, hshrink, hhistory⟩
  rcases of_shrink hshrink with ⟨hfits, hversion, hkey, hlabel, hfetched, hlength, hrows⟩
  have hupdate : (update t v sourceKey previous r).fst = some (t.write saved) := by
    unfold update
    rw [if_pos haccepted]
    simp only []
    rw [hshrink]
    rfl
  have hservers : saved.servers.length <= maxCacheRows :=
    Nat.le_trans hlength (length_take_le _ _)
  have hkept : saved.history.length <= maxCacheRows := by
    rw [hhistory, h.history_eq, h.recalled_eq]
    exact h.rows
  have hbounded : saved.history.all bounded = true := by
    rw [hhistory, all_eq_true]
    exact fun held hheld => (h.storable_history held hheld).left
  have hsmall : saved.servers.all bounded = true := by
    rw [all_eq_true]
    intro row hrow
    exact (mem_filter.mp (mem_of_mem_take (hrows row hrow))).right
  rcases accepts_iff.mp haccepted with ⟨hnonempty, hshort, hlabelShort, hclock⟩
  refine ⟨saved, ?_, hkey, hhistory⟩
  unfold nextSaved decode
  rw [hupdate]
  simp only []
  rw [if_neg (Nat.not_lt.mpr hfits), t.read_write]
  simp only []
  rw [if_neg]
  rw [hversion, hkey, hlabel, hfetched, hbounded, hsmall]
  rintro (hv | hk | hk | hl | he | hf | hs | hh | hb | hb)
  · exact hv rfl
  · exact hk rfl
  · exact Nat.not_lt.mpr hshort hk
  · exact Nat.not_lt.mpr hlabelShort hl
  · have hempty : sourceKey.isEmpty = true := he
    rw [hnonempty] at hempty
    cases hempty
  · exact Int64.not_lt.mpr hclock hf
  · exact Nat.not_lt.mpr hservers hs
  · exact Nat.not_lt.mpr hkept hh
  · cases hb
  · cases hb

/-!
## From update to update
-/

/-- The snapshot brings along a statement of the endpoint and key that verifies, and is
not older than so. -/
def Remembers (v : Verifier) (sourceKey : List Char) (saved : Option CachedListing)
    (now : Int64) (endpoint key : List Char) (issued : Int64) : Prop :=
  exists listing held claim, saved = some listing ∧ listing.sourceKey = sourceKey ∧
    held ∈ listing.history ∧ bounded held = true ∧ held.endpoint = endpoint ∧
    claimAt v held now = some claim ∧ claim.publicKey = key ∧ issued <= claim.issuedAtMs

variable {endpoint key : List Char} {issued : Int64}

theorem Remembers.recalled (h : Remembers v sourceKey previous now endpoint key issued)
    (hlater : now.toInt <= r.fetchedAtMs.toInt) (hwhole : Whole t v sourceKey previous r) :
    HeldSince v (recalled v sourceKey previous r.fetchedAtMs) endpoint key issued := by
  rcases h with ⟨listing, held, claim, hsaved, hsource, hmem, hbounded, hendpoint, hclaim, hkey,
    hissued⟩
  have hrows : storedRows sourceKey previous = listing.history ++ listing.servers := by
    unfold storedRows
    rw [hsaved, Option.filter_some, if_pos (decide_eq_true hsource)]
  have hin : held ∈ storedRows sourceKey previous := by
    rw [hrows]
    exact mem_append_left _ hmem
  rcases heldSince_rememberedAll hin hbounded (claimAt_later hlater hclaim) [] with
    ⟨other, older, hother, hotherEndpoint, hstored, hotherKey, hle⟩
  rw [hwhole.recalled_eq]
  exact ⟨other, older, hother, hotherEndpoint.trans hendpoint, hstored, hotherKey.trans hkey,
    Int64.le_trans hissued hle⟩

theorem remembers_nextSaved (haccepted : accepts sourceKey r.sourceLabel r.fetchedAtMs = true)
    (hwhole : Whole t v sourceKey previous r)
    (hheld : HeldSince v (snapshot v sourceKey previous r).history endpoint key issued) :
    Remembers v sourceKey (nextSaved t v sourceKey previous r) r.fetchedAtMs endpoint key
      issued := by
  rcases nextSaved_eq haccepted hwhole with ⟨saved, hsaved, hsource, hhistory⟩
  rcases hheld with ⟨held, older, hmem, hendpoint, hstored, hkey, hissued⟩
  rcases hwhole.storable_history held hmem with ⟨hbounded, claim, hclaim⟩
  have hsame := storedClaim_of_claimAt hclaim
  rw [hstored] at hsame
  cases hsame
  rw [<- hhistory] at hmem
  exact ⟨saved, held, older, hsaved, hsource, hmem, hbounded, hendpoint, hclaim, hkey, hissued⟩

theorem Remembers.next (h : Remembers v sourceKey previous now endpoint key issued)
    (hlater : now.toInt <= r.fetchedAtMs.toInt)
    (haccepted : accepts sourceKey r.sourceLabel r.fetchedAtMs = true)
    (hwhole : Whole t v sourceKey previous r) :
    Remembers v sourceKey (nextSaved t v sourceKey previous r) r.fetchedAtMs endpoint key
      issued := by
  apply remembers_nextSaved haccepted hwhole
  rw [hwhole.history_eq]
  exact (h.recalled hlater hwhole).rememberedAll _ _

/-- The rows whose statements an update looks into: those that were stored, those that
come in, and those that are shown. -/
def judged (v : Verifier) (sourceKey : List Char) (previous : Option CachedListing)
    (r : Refresh) : List DirectoryServer :=
  storedRows sourceKey previous ++ r.rows ++ shown v sourceKey previous r

theorem HeldSince.older {since : Int64} (h : HeldSince v history endpoint key issued)
    (hle : since <= issued) : HeldSince v history endpoint key since := by
  rcases h with ⟨held, older, hmem, hendpoint, hstored, hkey, hissued⟩
  exact ⟨held, older, hmem, hendpoint, hstored, hkey, Int64.le_trans hle hissued⟩

/-- A row that comes in small enough and verified is shown so, with its own statement
or with a newer one. -/
theorem shown_of_incoming (hwhole : Whole t v sourceKey previous r) (hrow : row ∈ r.rows)
    (hbounded : bounded row = true) (hclaim : claimAt v row r.fetchedAtMs = some claim) :
    exists row' claim', row' ∈ shown v sourceKey previous r ∧ bounded row' = true ∧
      row'.endpoint = row.endpoint ∧ claimAt v row' r.fetchedAtMs = some claim' ∧
      claim'.publicKey = claim.publicKey ∧ claim.issuedAtMs <= claim'.issuedAtMs := by
  have hshown : retainNewer v (recalled v sourceKey previous r.fetchedAtMs) r.fetchedAtMs row ∈
      shown v sourceKey previous r := mem_map_of_mem hrow
  rcases retainNewer_cases (recalled v sourceKey previous r.fetchedAtMs) hclaim with
    ⟨hstays, -⟩ | ⟨held, older, hmem, hendpoint, holder, hkey, hlt, hshows, -⟩
  · rw [hstays] at hshown
    exact ⟨row, claim, hshown, hbounded, rfl, hclaim, rfl, Int64.le_refl _⟩
  · rw [hshows] at hshown
    have hsmall := (hwhole.storable_recalled held hmem).left
    refine ⟨_, older, hshown, ?_, rfl, ?_, hkey, Int64.le_of_lt hlt⟩
    · exact bounded_of_parts hsmall hbounded
    · rw [<- holder]
      exact claimAt_congr rfl hendpoint.symm rfl

theorem heldSince_judged (hwhole : Whole t v sourceKey previous r)
    (hrow : row ∈ judged v sourceKey previous r) (hbounded : bounded row = true)
    (hclaim : claimAt v row r.fetchedAtMs = some claim) :
    HeldSince v (snapshot v sourceKey previous r).history row.endpoint claim.publicKey
      claim.issuedAtMs := by
  rw [hwhole.history_eq]
  rcases mem_append.mp hrow with hbefore | hshown
  · rcases mem_append.mp hbefore with hstored | hincoming
    · rw [hwhole.recalled_eq]
      exact (heldSince_rememberedAll hstored hbounded hclaim []).rememberedAll _ _
    · rcases shown_of_incoming hwhole hincoming hbounded hclaim with
        ⟨row', claim', hshown, hbounded', hendpoint, hclaim', hkey, hle⟩
      rw [<- hendpoint, <- hkey]
      exact (heldSince_rememberedAll hshown hbounded' hclaim' _).older hle
  · exact heldSince_rememberedAll hshown hbounded hclaim _

/-- The updates of a run come in the order of their clocks, and none that is accepted
drops any history. -/
structure Steady (t : ListingText) (v : Verifier) (sourceKey : List Char)
    (previous : Option CachedListing) (refreshes : List Refresh) : Prop where
  inOrder : refreshes.Pairwise (fun r r' => r.fetchedAtMs.toInt <= r'.fetchedAtMs.toInt)
  whole : forall front r back, refreshes = front ++ r :: back ->
    accepts sourceKey r.sourceLabel r.fetchedAtMs = true ->
      Whole t v sourceKey (savedAfter t v sourceKey previous front) r

theorem Steady.tail {rest : List Refresh} (h : Steady t v sourceKey previous (r :: rest)) :
    Steady t v sourceKey (nextSaved t v sourceKey previous r) rest where
  inOrder := (pairwise_cons.mp h.inOrder).right
  whole := by
    intro front r' back hsplit
    exact h.whole (r :: front) r' back (by rw [hsplit]; rfl)

theorem steady_nil : Steady t v sourceKey previous [] where
  inOrder := Pairwise.nil
  whole := by
    intro front r back hsplit
    cases front with
    | nil | cons first rest => cases hsplit

theorem Steady.cons {rest : List Refresh}
    (hrest : Steady t v sourceKey (nextSaved t v sourceKey previous r) rest)
    (hwhole : Whole t v sourceKey previous r)
    (hbefore : forall r', r' ∈ rest -> r.fetchedAtMs.toInt <= r'.fetchedAtMs.toInt) :
    Steady t v sourceKey previous (r :: rest) where
  inOrder := Pairwise.cons hbefore hrest.inOrder
  whole := by
    intro front r' back hsplit haccepted
    cases front with
    | nil =>
        cases hsplit
        exact hwhole
    | cons first front =>
        cases hsplit
        exact hrest.whole front r' back rfl haccepted

theorem savedAfter_append (front back : List Refresh) :
    savedAfter t v sourceKey previous (front ++ back) =
      savedAfter t v sourceKey (savedAfter t v sourceKey previous front) back := by
  induction front generalizing previous with
  | nil => rfl
  | cons r rest ih => exact ih

theorem Steady.drop {front back : List Refresh}
    (h : Steady t v sourceKey previous (front ++ back)) :
    Steady t v sourceKey (savedAfter t v sourceKey previous front) back := by
  induction front generalizing previous with
  | nil => exact h
  | cons r rest ih => exact ih h.tail

theorem nextSaved_of_not_accepted (h : accepts sourceKey r.sourceLabel r.fetchedAtMs = false) :
    nextSaved t v sourceKey previous r = previous := by
  unfold nextSaved update
  rw [h]
  rfl

theorem Remembers.later (h : Remembers v sourceKey previous now endpoint key issued)
    {later : Int64} (hle : now.toInt <= later.toInt) :
    Remembers v sourceKey previous later endpoint key issued := by
  rcases h with ⟨listing, held, claim, hsaved, hsource, hmem, hbounded, hendpoint, hclaim, hkey,
    hissued⟩
  exact ⟨listing, held, claim, hsaved, hsource, hmem, hbounded, hendpoint,
    claimAt_later hle hclaim, hkey, hissued⟩

theorem Remembers.run {mid : List Refresh} {later : Int64}
    (h : Remembers v sourceKey previous now endpoint key issued)
    (hsteady : Steady t v sourceKey previous mid)
    (hafter : forall r, r ∈ mid -> now.toInt <= r.fetchedAtMs.toInt)
    (hbefore : forall r, r ∈ mid -> r.fetchedAtMs.toInt <= later.toInt)
    (hle : now.toInt <= later.toInt) :
    Remembers v sourceKey (savedAfter t v sourceKey previous mid) later endpoint key issued := by
  induction mid generalizing previous now with
  | nil => exact h.later hle
  | cons r rest ih =>
      have hlater := hafter r mem_cons_self
      have hfirst := (pairwise_cons.mp hsteady.inOrder).left
      have hnext : Remembers v sourceKey (nextSaved t v sourceKey previous r) r.fetchedAtMs
          endpoint key issued := by
        cases haccepted : accepts sourceKey r.sourceLabel r.fetchedAtMs with
        | false =>
            rw [nextSaved_of_not_accepted haccepted]
            exact h.later hlater
        | true => exact h.next hlater haccepted (hsteady.whole [] r rest rfl haccepted)
      exact ih hnext hsteady.tail hfirst
        (fun r' hr' => hbefore r' (mem_cons_of_mem r hr'))
        (hbefore r mem_cons_self)

theorem update_rows (haccepted : accepts sourceKey r.sourceLabel r.fetchedAtMs = true) :
    (update t v sourceKey previous r).snd = shown v sourceKey previous r := by
  unfold update
  rw [if_pos haccepted]

theorem getElem?_update_of_none {i : Nat} (hrow : r.rows[i]? = some row)
    (hclaim : claimAt v row r.fetchedAtMs = none) :
    (update t v sourceKey previous r).snd[i]? = some row := by
  unfold update
  split
  · show (shown v sourceKey previous r)[i]? = some row
    unfold shown
    rw [getElem?_map, hrow, Option.map_some, retainNewer_of_none hclaim]
  · exact hrow

/-!
## The theorem
-/

/-- In every run of updates: when one has found a small enough row verified, no later one shows
a row of the same endpoint and key that verifies with an older issue time.  A row whose
statement does not verify stays as it came, in its place. -/
theorem listing_never_goes_back (t : ListingText) (v : Verifier) (sourceKey : List Char)
    (first : Option CachedListing) (refreshes : List Refresh)
    (hsteady : Steady t v sourceKey first refreshes) :
    (forall front a mid b back row row' claim claim',
      refreshes = front ++ a :: (mid ++ b :: back) ->
      accepts sourceKey a.sourceLabel a.fetchedAtMs = true ->
      accepts sourceKey b.sourceLabel b.fetchedAtMs = true ->
      row ∈ judged v sourceKey (savedAfter t v sourceKey first front) a ->
      bounded row = true -> claimAt v row a.fetchedAtMs = some claim ->
      row' ∈ (update t v sourceKey (savedAfter t v sourceKey first (front ++ a :: mid)) b).snd ->
      claimAt v row' b.fetchedAtMs = some claim' ->
      row'.endpoint = row.endpoint -> claim'.publicKey = claim.publicKey ->
        claim.issuedAtMs <= claim'.issuedAtMs) ∧
    forall (previous : Option CachedListing) (r : Refresh) (i : Nat) (row : DirectoryServer),
      r.rows[i]? = some row -> claimAt v row r.fetchedAtMs = none ->
      (update t v sourceKey previous r).snd[i]? = some row := by
  constructor
  · intro front a mid b back row row' claim claim' hsplit haccepted hbaccepted hrow hbounded hclaim
      hshown hclaim' hendpoint hkey
    rw [hsplit] at hsteady
    have hfrom := hsteady.drop
    have hwhole := hfrom.whole [] a (mid ++ b :: back) rfl haccepted
    have hremembered := remembers_nextSaved haccepted hwhole
      (heldSince_judged hwhole hrow hbounded hclaim)
    have hrest := hfrom.tail
    have hfirst := (pairwise_cons.mp hfrom.inOrder).left
    rcases pairwise_append.mp hrest.inOrder with ⟨horder, -, hcross⟩
    have hmid : Steady t v sourceKey
        (nextSaved t v sourceKey (savedAfter t v sourceKey first front) a) mid :=
      { inOrder := horder
        whole := by
          intro before r after hmid
          exact hrest.whole before r (after ++ b :: back) (by rw [hmid, append_assoc]; rfl) }
    have hrun := hremembered.run hmid
      (fun r hr => hfirst r (mem_append_left _ hr))
      (fun r hr => hcross r hr b mem_cons_self)
      (hfirst b (mem_append_right _ mem_cons_self))
    have hbwhole := hrest.whole mid b back rfl hbaccepted
    have hheld := hrun.recalled (Int.le_refl _) hbwhole
    have hsame : savedAfter t v sourceKey first (front ++ a :: mid) =
        savedAfter t v sourceKey
          (nextSaved t v sourceKey (savedAfter t v sourceKey first front) a) mid :=
      savedAfter_append front (a :: mid)
    rw [update_rows hbaccepted, hsame] at hshown
    rcases mem_map.mp hshown with ⟨incoming, -, rfl⟩
    have hincoming := endpoint_retainNewer v
      (recalled v sourceKey (savedAfter t v sourceKey
        (nextSaved t v sourceKey (savedAfter t v sourceKey first front) a) mid) b.fetchedAtMs)
      b.fetchedAtMs incoming
    rw [<- hendpoint, hincoming] at hheld
    exact le_issued_of_held hbwhole.storable_recalled hheld hclaim' hkey
  · exact fun previous r i row hrow hclaim => getElem?_update_of_none hrow hclaim

/-- A client that takes every signature for its key's, and reads no JSON. -/
def trusting : Verifier where
  scheme := ⟨fun _ _ _ => true⟩
  format := Format.wire
  json := ⟨fun _ => none, id⟩

/-- A listing kept as it is, at a thousand bytes a row. -/
def plainListing : ListingText where
  text := CachedListing
  size := fun saved => 1000 * (saved.history.length + saved.servers.length)
  write := id
  read := some
  read_write := fun _ => rfl

def rowCount (refreshes : List Refresh) : Nat :=
  (refreshes.map (fun r => r.rows.length)).sum

/-- An update of few rows drops nothing, and leaves few behind. -/
theorem whole_of_few
    (hfew : (storedRows sourceKey previous).length + 2 * r.rows.length <= maxCacheRows) :
    Whole plainListing v sourceKey previous r ∧
      (storedRows sourceKey (nextSaved plainListing v sourceKey previous r)).length <=
        (storedRows sourceKey previous).length + 2 * r.rows.length := by
  have hrows := length_history_le v sourceKey previous r
  have hmax : maxCacheRows = 128 := rfl
  have hbytes : maxCacheBytes = 524288 := rfl
  have hkept := Nat.le_trans hrows
    (show (storedRows sourceKey previous).length + r.rows.length <= maxCacheRows by omega)
  have hrecalled : recalled v sourceKey previous r.fetchedAtMs =
      rememberedAll v r.fetchedAtMs [] (storedRows sourceKey previous) :=
    foldl_rememberProof (Nat.le_trans (length_rememberedAll _ _ _) hkept)
  have hhistory : (snapshot v sourceKey previous r).history.length <=
      (storedRows sourceKey previous).length + r.rows.length := by
    show ((shown v sourceKey previous r).foldl (rememberProof v r.fetchedAtMs)
      (recalled v sourceKey previous r.fetchedAtMs)).length <= _
    rw [hrecalled, foldl_rememberProof hkept]
    exact hrows
  have hservers : (snapshot v sourceKey previous r).servers.length <= r.rows.length := by
    have htake := length_take_le' maxCacheRows ((shown v sourceKey previous r).filter bounded)
    have hfilter := length_filter_le bounded (shown v sourceKey previous r)
    have hshown : (shown v sourceKey previous r).length = r.rows.length := length_map _
    rw [hshown] at hfilter
    exact Nat.le_trans htake hfilter
  have hfits : plainListing.size (plainListing.write (snapshot v sourceKey previous r)) <=
      maxCacheBytes := by
    show 1000 * _ <= maxCacheBytes
    unfold plainListing
    simp only [id_eq]
    omega
  have hwhole : Whole plainListing v sourceKey previous r :=
    { rows := hkept
      bytes := ⟨snapshot v sourceKey previous r, shrink_of_fits _ hfits, rfl⟩ }
  refine ⟨hwhole, ?_⟩
  cases haccepted : accepts sourceKey r.sourceLabel r.fetchedAtMs with
  | false =>
      rw [nextSaved_of_not_accepted haccepted]
      exact Nat.le_add_right _ _
  | true =>
      have hupdate : (update plainListing v sourceKey previous r).fst =
          some (snapshot v sourceKey previous r) := by
        unfold update
        rw [if_pos haccepted]
        simp only []
        rw [shrink_of_fits _ hfits]
        rfl
      rcases nextSaved_eq haccepted hwhole with ⟨saved, hsaved, hsource, hsame⟩
      have hdecoded : saved = snapshot v sourceKey previous r := by
        unfold nextSaved decode at hsaved
        rw [hupdate] at hsaved
        simp only [] at hsaved
        split at hsaved
        · cases hsaved
        · split at hsaved
          · cases hsaved
          · rename_i hread
            cases hread
            split at hsaved
            · cases hsaved
            · cases hsaved
              rfl
      rw [hsaved]
      unfold storedRows
      rw [Option.filter_some, if_pos (decide_eq_true hsource), hdecoded, length_append]
      show (snapshot v sourceKey previous r).history.length + _ <=
        (storedRows sourceKey previous).length + _
      omega

theorem steady_of_few {refreshes : List Refresh}
    (hfew : (storedRows sourceKey previous).length + 2 * rowCount refreshes <= maxCacheRows)
    (horder : refreshes.Pairwise (fun r r' => r.fetchedAtMs.toInt <= r'.fetchedAtMs.toInt)) :
    Steady plainListing v sourceKey previous refreshes := by
  induction refreshes generalizing previous with
  | nil => exact steady_nil
  | cons r rest ih =>
      have hcount : rowCount (r :: rest) = r.rows.length + rowCount rest := sum_cons
      rcases pairwise_cons.mp horder with ⟨hfirst, hrest⟩
      rcases @whole_of_few v sourceKey previous r (by omega) with ⟨hwhole, hleft⟩
      exact Steady.cons (ih (by omega) hrest) hwhole hfirst

def glass : List Char := "glass".toList

/-- The statement of a server at a time. -/
def statement (timestamp : Int64) : SignedDescriptor where
  descriptor :=
    { serverKey := 1
      name := "Wonderland".toList
      description := "Down the rabbit hole".toList
      addr := ⟨.v4 0xcb007107, 5500⟩
      categories := ["chat".toList]
      usersOnline := 12
      capacity := 64
      software := []
      timestamp := timestamp }
  sig := 0

/-- The server's row, with some listeners and with its statement of a time if it has one. -/
def serverRow (listeners : List (List Char)) (timestamp : Option Int64) : DirectoryServer where
  name := "Wonderland".toList
  endpoint := "ws://203.0.113.7:5500".toList
  description := []
  usersOnline := some 12
  listeners := listeners
  uptimePct := some 99
  reachable := true
  proof := timestamp.map (fun n =>
    DirectoryProof.ofGossip (toHex ((statement n).toBytes Format.wire)))

/-- A refresh with this one row. -/
def refreshed (clock : Int64) (row : DirectoryServer) : Refresh where
  sourceLabel := glass
  fetchedAtMs := clock
  rows := [row]

/-- The server is seen with a newer statement, without one, and with an older one. -/
def interrupted : List Refresh :=
  [refreshed 1000 (serverRow [] (some 200)), refreshed 2000 (serverRow [] none),
    refreshed 3000 (serverRow [] (some 100))]

set_option maxRecDepth 8000 in
theorem claimAt_serverRow (listeners : List (List Char)) {clock : Int64}
    (hclock : 0 <= clock.toInt) :
    claimAt trusting (serverRow listeners (some 200)) clock =
        some ⟨hexOfKey 1, 200, .address⟩ ∧
      claimAt trusting (serverRow listeners (some 100)) clock =
        some ⟨hexOfKey 1, 100, .address⟩ := by
  have hnewer : claimAt trusting (serverRow [] (some 200)) 0 =
      some ⟨hexOfKey 1, 200, .address⟩ := by
    decide
  have holder : claimAt trusting (serverRow [] (some 100)) 0 =
      some ⟨hexOfKey 1, 100, .address⟩ := by
    decide
  constructor
  · have hsame : claimAt trusting (serverRow listeners (some 200)) clock =
        claimAt trusting (serverRow [] (some 200)) clock := claimAt_congr rfl rfl rfl
    rw [hsame]
    exact claimAt_later (show (0 : Int64).toInt <= clock.toInt from hclock) hnewer
  · have hsame : claimAt trusting (serverRow listeners (some 100)) clock =
        claimAt trusting (serverRow [] (some 100)) clock := claimAt_congr rfl rfl rfl
    rw [hsame]
    exact claimAt_later (show (0 : Int64).toInt <= clock.toInt from hclock) holder

set_option maxRecDepth 8000 in
theorem listing_never_goes_back_interrupted :
    (exists row claim, row ∈ (update plainListing trusting glass
        (savedAfter plainListing trusting glass none (interrupted.take 2))
        (refreshed 3000 (serverRow [] (some 100)))).snd ∧
      claimAt trusting row 3000 = some claim ∧ 200 <= claim.issuedAtMs) ∧
    (update plainListing trusting glass
      (savedAfter plainListing trusting glass none (interrupted.take 1))
      (refreshed 2000 (serverRow [] none))).snd[0]? = some (serverRow [] none) := by
  have hsteady : Steady plainListing trusting glass none interrupted :=
    steady_of_few (by decide) (by decide)
  rcases listing_never_goes_back plainListing trusting glass none interrupted hsteady with
    ⟨hnever, hplain⟩
  constructor
  · have hshown : serverRow [] (some 200) ∈
        (update plainListing trusting glass
          (savedAfter plainListing trusting glass none (interrupted.take 2))
          (refreshed 3000 (serverRow [] (some 100)))).snd := by
      decide
    have hjudged : serverRow [] (some 200) ∈
        judged trusting glass none (refreshed 1000 (serverRow [] (some 200))) :=
      mem_append_left _ (mem_append_right _ (mem_singleton.mpr rfl))
    refine ⟨serverRow [] (some 200), ⟨hexOfKey 1, 200, .address⟩, hshown,
      (claimAt_serverRow [] (by decide)).left, ?_⟩
    exact hnever [] (refreshed 1000 (serverRow [] (some 200)))
      [refreshed 2000 (serverRow [] none)] (refreshed 3000 (serverRow [] (some 100))) []
      (serverRow [] (some 200)) (serverRow [] (some 200))
      ⟨hexOfKey 1, 200, .address⟩ ⟨hexOfKey 1, 200, .address⟩ rfl (by decide)
      (by decide) hjudged (by decide)
      (claimAt_serverRow [] (by decide)).left hshown (claimAt_serverRow [] (by decide)).left rfl rfl
  · exact hplain _ (refreshed 2000 (serverRow [] none)) 0 (serverRow [] none) rfl
      (by decide)

/-- The same of every row and every update, be it small enough and accepted or not. -/
def NeverOlder (t : ListingText) (v : Verifier) (sourceKey : List Char)
    (first : Option CachedListing) (refreshes : List Refresh) : Prop :=
  forall front a mid b back row row' claim claim',
    refreshes = front ++ a :: (mid ++ b :: back) ->
    row ∈ (update t v sourceKey (savedAfter t v sourceKey first front) a).snd ->
    claimAt v row a.fetchedAtMs = some claim ->
    row' ∈ (update t v sourceKey (savedAfter t v sourceKey first (front ++ a :: mid)) b).snd ->
    claimAt v row' b.fetchedAtMs = some claim' ->
    row'.endpoint = row.endpoint -> claim'.publicKey = claim.publicKey ->
      claim.issuedAtMs <= claim'.issuedAtMs

def largeRow : DirectoryServer :=
  serverRow (List.replicate 33 "ws".toList) (some 200)

def overlong (r : Refresh) : Refresh :=
  { r with sourceLabel := List.replicate 257 'a' }

theorem not_neverOlder {a b : Refresh} (listeners : List (List Char))
    (hrow : serverRow listeners (some 200) ∈ (update plainListing trusting glass none a).snd)
    (hrow' : serverRow [] (some 100) ∈ (update plainListing trusting glass
      (savedAfter plainListing trusting glass none [a]) b).snd)
    (hclock : 0 <= a.fetchedAtMs.toInt) (hclock' : 0 <= b.fetchedAtMs.toInt) :
    ¬ NeverOlder plainListing trusting glass none [a, b] := by
  intro hnever
  have hle := hnever [] a [] b [] _ _ _ _ rfl hrow (claimAt_serverRow listeners hclock).left
    hrow' (claimAt_serverRow [] hclock').right rfl rfl
  revert hle
  decide

set_option maxRecDepth 8000 in
/-- A large row is not stored, and an update that is not accepted neither stores nor
keeps anything back: none of the three runs drops any history, and each goes back. -/
theorem listing_goes_back : (Steady plainListing trusting glass none
        [refreshed 1000 largeRow, refreshed 2000 (serverRow [] (some 100))] ∧
      ¬ NeverOlder plainListing trusting glass none
        [refreshed 1000 largeRow, refreshed 2000 (serverRow [] (some 100))]) ∧
    (Steady plainListing trusting glass none
        [refreshed 1000 (serverRow [] (some 200)),
          overlong (refreshed 2000 (serverRow [] (some 100)))] ∧
      ¬ NeverOlder plainListing trusting glass none
        [refreshed 1000 (serverRow [] (some 200)),
          overlong (refreshed 2000 (serverRow [] (some 100)))]) ∧
    (Steady plainListing trusting glass none
        [overlong (refreshed 1000 (serverRow [] (some 200))),
          refreshed 2000 (serverRow [] (some 100))] ∧
      ¬ NeverOlder plainListing trusting glass none
        [overlong (refreshed 1000 (serverRow [] (some 200))),
          refreshed 2000 (serverRow [] (some 100))]) := by
  refine ⟨⟨?_, ?_⟩, ⟨?_, ?_⟩, ?_, ?_⟩
  · exact steady_of_few (by decide) (by decide)
  · exact not_neverOlder (List.replicate 33 "ws".toList) (by decide)
      (by decide) (by decide) (by decide)
  · exact steady_of_few (by decide) (by decide)
  · exact not_neverOlder [] (by decide) (by decide) (by decide)
      (by decide)
  · exact steady_of_few (by decide) (by decide)
  · exact not_neverOlder [] (by decide) (by decide) (by decide)
      (by decide)

end Rabbithole.Directory
