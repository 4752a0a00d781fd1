import Rabbithole.Radio.FlacFrames

/-!
# Ogg streams

A page says which sample its audio ends at; over the rate, that is how long the stream
plays.
-/

namespace Rabbithole.Radio
namespace Ogg

open Foundation Flac List

structure Page where
  offset : Nat
  /-- The whole page, header and payload. -/
  len : Nat
  /-- The sample that the audio ends at; none for a page that completes no packet. -/
  granule : Option Nat
  beginning : Bool
  ending : Bool
deriving DecidableEq

def header : Nat := 27

def oggS : Bytes := [0x4F, 0x67, 0x67, 0x53]

def pageAt (bytes : Bytes) (offset : Nat) : Option Page := do
  let head <- slice? bytes offset (offset + header)
  guard (head.take 4 = oggS ∧ head.getD 4 0 = 0)
  let flags := head.getD 5 0
  let granule := Codec.ofHighFirst ((head.drop 6).take 8).reverse
  let segments := (head.getD 26 0).toNat
  let table <- slice? bytes (offset + header) (offset + header + segments)
  let payload := (table.map UInt8.toNat).sum
  let len := header + segments + payload
  let _ <- slice? bytes offset (offset + len)
  some
    { offset := offset
      len := len
      granule := if granule ≠ 2 ^ 64 - 1 then some granule else none
      beginning := flags &&& 0x02 ≠ 0
      ending := flags &&& 0x04 ≠ 0 }

def pagesFrom (bytes : Bytes) : Nat -> Nat -> List Page
  | 0, _ => []
  | fuel + 1, place =>
      match pageAt bytes place with
      | none => []
      | some page => page :: pagesFrom bytes fuel (place + page.len)

/-- A page takes more than one byte, so that the walk has come to its end by then. -/
def pages (bytes : Bytes) : List Page :=
  pagesFrom bytes (bytes.length + 1) 0

/-- The product wraps around as the release build's does. -/
def micros (bytes : Bytes) (rate : Nat) : Nat :=
  if rate = 0 then 0
  else
    (((pages bytes).filterMap Page.granule).max?.map
      (fun last => last * 1000000 % 2 ^ 64 / rate)).getD 0

/-!
## Pages
-/

variable {bytes : Bytes} {place stop rate : Nat} {page : Page}

theorem pageAt_bounds (h : pageAt bytes place = some page) :
    page.offset = place ∧ header <= page.len ∧ place + page.len <= bytes.length := by
  unfold pageAt at h
  rcases Option.bind_eq_some_iff.mp h with ⟨head, -, h⟩
  rcases guard_bind_eq_some.mp h with ⟨-, h⟩
  rcases Option.bind_eq_some_iff.mp h with ⟨table, -, h⟩
  rcases Option.bind_eq_some_iff.mp h with ⟨whole, hwhole, h⟩
  cases h
  refine ⟨rfl, ?_, (slice?_eq_some hwhole).right.left⟩
  exact Nat.le_trans (Nat.le_add_right _ _) (Nat.le_add_right _ _)

/-- Pages from one place to another, each beginning where the one before it ends. -/
def Consecutive (bytes : Bytes) : Nat -> List Page -> Nat -> Prop
  | place, [], stop => place = stop
  | place, page :: rest, stop =>
      pageAt bytes place = some page ∧ Consecutive bytes (place + page.len) rest stop

theorem pagesFrom_consecutive (fuel : Nat) (hplace : place <= bytes.length)
    (hfuel : bytes.length < place + fuel) :
    exists stop, Consecutive bytes place (pagesFrom bytes fuel place) stop ∧
      stop <= bytes.length ∧ pageAt bytes stop = none := by
  induction fuel generalizing place with
  | zero => exact absurd hplace (Nat.not_le.mpr hfuel)
  | succ fuel ih =>
      cases hpage : pageAt bytes place with
      | none =>
          refine ⟨place, ?_, hplace, hpage⟩
          unfold pagesFrom
          rw [hpage]
          rfl
      | some page =>
          rcases pageAt_bounds hpage with ⟨-, hlen, hend⟩
          unfold header at hlen
          rcases ih hend (by omega) with ⟨stop, hrest, hstop, hnone⟩
          refine ⟨stop, ?_, hstop, hnone⟩
          unfold pagesFrom
          rw [hpage]
          exact ⟨hpage, hrest⟩

theorem Consecutive.prefix_of_maximal {pages others : List Page} {stop' : Nat}
    (h : Consecutive bytes place pages stop) (hend : pageAt bytes stop = none)
    (hother : Consecutive bytes place others stop') : IsPrefix others pages := by
  induction others generalizing place pages with
  | nil => exact nil_prefix
  | cons other others ih =>
      cases pages with
      | nil =>
          have hplace : place = stop := h
          rw [hplace] at hother
          rw [hother.left] at hend
          cases hend
      | cons page pages =>
          have hsame : other = page := Option.some.inj (hother.left.symm.trans h.left)
          subst hsame
          exact cons_prefix_cons.mpr ⟨rfl, ih h.right hother.right⟩

/-!
## Pacing
-/

/-- The largest granule that pages carry. -/
def Largest (pages : List Page) (g : Nat) : Prop :=
  (exists page, page ∈ pages ∧ page.granule = some g) ∧
    forall page, page ∈ pages -> forall g', page.granule = some g' -> g' <= g

theorem largest_iff_max? {pages : List Page} {g : Nat} :
    Largest pages g <-> (pages.filterMap Page.granule).max? = some g := by
  rw [max?_eq_some_iff]
  unfold Largest
  constructor
  · rintro ⟨hmem, hle⟩
    refine ⟨mem_filterMap.mpr hmem, ?_⟩
    intro g' hg'
    rcases mem_filterMap.mp hg' with ⟨page, hpage, hsome⟩
    exact hle page hpage g' hsome
  · rintro ⟨hmem, hle⟩
    refine ⟨mem_filterMap.mp hmem, ?_⟩
    intro page hpage g' hsome
    exact hle g' (mem_filterMap.mpr ⟨page, hpage, hsome⟩)

/-- The walk finds the longest run of whole pages from the start, and the duration is the
largest granule over the rate, with nothing overflowing on the way. -/
structure Exact (bytes : Bytes) (rate : Nat) : Prop where
  walk : exists stop, Consecutive bytes 0 (pages bytes) stop ∧ stop <= bytes.length ∧
    pageAt bytes stop = none
  inside : forall page, page ∈ pages bytes -> page.offset + page.len <= bytes.length
  unpaced : (rate = 0 ∨ forall page, page ∈ pages bytes -> page.granule = none) ->
    micros bytes rate = 0
  fits : forall g, rate ≠ 0 -> Largest (pages bytes) g -> g * 1000000 < 2 ^ 64
  paced : forall g, rate ≠ 0 -> Largest (pages bytes) g -> g * 1000000 / rate < 2 ^ 64 ->
    micros bytes rate = g * 1000000 / rate

theorem Consecutive.inside {pages : List Page} (h : Consecutive bytes place pages stop)
    (hpage : page ∈ pages) : page.offset + page.len <= bytes.length := by
  induction pages generalizing place with
  | nil => cases hpage
  | cons first rest ih =>
      rcases mem_cons.mp hpage with rfl | hrest
      · rcases pageAt_bounds h.left with ⟨hoffset, -, hend⟩
        rw [hoffset]
        exact hend
      · exact ih h.right hrest

theorem pages_consecutive (bytes : Bytes) :
    exists stop, Consecutive bytes 0 (pages bytes) stop ∧ stop <= bytes.length ∧
      pageAt bytes stop = none :=
  pagesFrom_consecutive (bytes.length + 1) (Nat.zero_le _) (by omega)

theorem micros_of_largest {g : Nat} (hrate : rate ≠ 0) (h : Largest (pages bytes) g) :
    micros bytes rate = g * 1000000 % 2 ^ 64 / rate := by
  unfold micros
  rw [if_neg hrate, largest_iff_max?.mp h, Option.map_some, Option.getD_some]

theorem micros_unpaced (h : rate = 0 ∨ forall page, page ∈ pages bytes -> page.granule = none) :
    micros bytes rate = 0 := by
  unfold micros
  rcases h with hrate | hnone
  · rw [if_pos hrate]
  · have hempty : (pages bytes).filterMap Page.granule = [] :=
      filterMap_eq_nil_iff.mpr hnone
    rw [hempty]
    split <;> rfl

theorem exists_largest {pages : List Page} {g : Nat} (hpage : page ∈ pages)
    (hg : page.granule = some g) : exists last, Largest pages last ∧ g <= last := by
  cases hmax : (pages.filterMap Page.granule).max? with
  | none =>
      have hmem := mem_filterMap.mpr ⟨page, hpage, hg⟩
      rw [max?_eq_none_iff.mp hmax] at hmem
      cases hmem
  | some last =>
      have hlargest := largest_iff_max?.mpr hmax
      exact ⟨last, hlargest, hlargest.right page hpage g hg⟩

/-- Pacing is exact unless a page from the start on carries a granule so large that its
microseconds overflow before they are divided. -/
theorem exact_iff (bytes : Bytes) (rate : Nat) :
    Exact bytes rate <->
      rate = 0 ∨ forall run stop, Consecutive bytes 0 run stop ->
        forall page, page ∈ run -> forall g, page.granule = some g -> g <= 18446744073709 := by
  rcases pages_consecutive bytes with ⟨stop, hpages, hstop, hnone⟩
  constructor
  · intro h
    by_cases hrate : rate = 0
    · exact .inl hrate
    · refine .inr ?_
      intro run stop' hrun page hpage g hg
      have hmem := (hpages.prefix_of_maximal hnone hrun).subset hpage
      rcases exists_largest hmem hg with ⟨last, hlast, hle⟩
      have hfits := h.fits last hrate hlast
      omega
  · intro h
    have hfits : forall g, rate ≠ 0 -> Largest (pages bytes) g -> g * 1000000 < 2 ^ 64 := by
      intro g hrate hlargest
      rcases hlargest.left with ⟨page, hpage, hg⟩
      have hle := h.resolve_left hrate (pages bytes) stop hpages page hpage g hg
      omega
    exact
      { walk := ⟨stop, hpages, hstop, hnone⟩
        inside := fun page hpage => hpages.inside hpage
        unpaced := micros_unpaced
        fits := hfits
        paced := by
          intro g hrate hlargest _
          rw [micros_of_largest hrate hlargest, Nat.mod_eq_of_lt (hfits g hrate hlargest)] }

/-- A page without audio whose granule is two to the forty-fifth. -/
def longPage : Bytes :=
  oggS ++ [0, 0, 0, 0, 0, 0, 0, 0x20, 0, 0] ++ List.replicate 13 0

theorem longPage_overflows : ¬ Exact longPage 48000 := by
  intro h
  have hpages : pages longPage =
      [{ offset := 0, len := 27, granule := some (2 ^ 45), beginning := false,
         ending := false }] := by
    decide
  have hlargest : Largest (pages longPage) (2 ^ 45) := by
    rw [largest_iff_max?, hpages]
    rfl
  have hfits := h.fits (2 ^ 45) (by decide) hlargest
  omega

end Ogg
end Rabbithole.Radio
