import Rabbithole.Foundation.Addresses
import Rabbithole.Federation.Pull

/-!
# Endpoints in a grant

An endpoint is written with its address in brackets where that has colons, and its port in
plain decimal.  What is accepted can have the brackets all the same, and other spellings of
the port.
-/

namespace Rabbithole.Federation

open Foundation List

def shownHost (host : List Char) : List Char :=
  if isIpv6Addr (bareHost host) then '[' :: (bareHost host ++ [']']) else bareHost host

def endpoint (host : List Char) (port : UInt16) : String :=
  String.ofList (shownHost host ++ ':' :: Nat.toDigits 10 port.toNat)

/-!
## Hosts
-/

theorem bareHost_brackets (s : List Char) : bareHost ('[' :: (s ++ [']'])) = s := by
  show (if (s ++ [']']).getLast? = some ']' then (s ++ [']']).dropLast else _) = s
  rw [getLast?_concat, if_pos rfl, dropLast_concat]

theorem bareHost_cases (host : List Char) :
    (exists s, host = '[' :: (s ++ [']']) ∧ bareHost host = s) ∨
      (bareHost host = host ∧ ¬ (host.head? = some '[' ∧ host.getLast? = some ']')) := by
  by_cases hbrackets : host.head? = some '[' ∧ host.getLast? = some ']'
  · left
    rcases hbrackets with ⟨hhead, hlast⟩
    cases host with
    | nil => cases hhead
    | cons c rest =>
        cases hhead
        rcases eq_nil_or_concat rest with rfl | ⟨s, d, rfl⟩
        · cases hlast
        · rw [concat_eq_append] at hlast ⊢
          have hd : d = ']' := by
            have hsame : ('[' :: (s ++ [d])).getLast? = some d := by
              rw [← cons_append, getLast?_concat]
            rw [hsame] at hlast
            exact Option.some.inj hlast
          rw [hd]
          exact ⟨s, rfl, bareHost_brackets s⟩
  · right
    refine ⟨?_, hbrackets⟩
    unfold bareHost
    split
    · rename_i rest
      split
      · rename_i hlast
        refine absurd ⟨rfl, ?_⟩ hbrackets
        rw [getLast?_cons, hlast]
        rfl
      · rfl
    · rfl

variable {host : List Char}

theorem mem_of_labels (h : (host.splitOn '.').all labelIsAcceptable = true) {c : Char}
    (hc : c ∈ host) : c = '.' ∨ c.isAlphanum = true ∨ c = '-' := by
  have hjoined : ['.'].intercalate (host.splitOn '.') = host := intercalate_splitOn '.'
  rw [← hjoined] at hc
  rcases mem_intercalate hc with hdot | ⟨label, hlabel, hmem⟩
  · exact Or.inl hdot
  · have haccepted := all_eq_true.mp h label hlabel
    unfold labelIsAcceptable at haccepted
    simp only [Bool.and_eq_true, all_eq_true, Bool.or_eq_true, beq_iff_eq] at haccepted
    exact Or.inr (haccepted.right c hmem)

theorem host_kinds (h : hostIsAcceptable host = true) :
    (exists s, host = '[' :: (s ++ [']']) ∧ isIpAddr s = true) ∨
      (bareHost host = host ∧ (isIpAddr host = true ∨ ':' ∉ host)) := by
  unfold hostIsAcceptable at h
  split at h
  · cases h
  · split at h
    · rename_i haddr
      rcases bareHost_cases host with ⟨s, hs, hbare⟩ | ⟨hbare, -⟩
      · rw [hbare] at haddr
        exact Or.inl ⟨s, hs, haddr⟩
      · rw [hbare] at haddr
        exact Or.inr ⟨hbare, Or.inl haddr⟩
    · rw [Bool.and_eq_true] at h
      have hplain : forall c, c ∈ host -> c = '.' ∨ c.isAlphanum = true ∨ c = '-' :=
        fun c hc => mem_of_labels h.right hc
      refine Or.inr ⟨?_, Or.inr ?_⟩
      · rcases bareHost_cases host with ⟨s, hs, -⟩ | ⟨hbare, -⟩
        · have hbracket := hplain '[' (by rw [hs]; exact mem_cons_self)
          exact absurd hbracket (by decide)
        · exact hbare
      · intro hcolon
        exact absurd (hplain ':' hcolon) (by decide)

theorem byteSize_append (s t : List Char) :
    (String.ofList (s ++ t)).utf8ByteSize =
      (String.ofList s).utf8ByteSize + (String.ofList t).utf8ByteSize := by
  rw [String.ofList_append, String.utf8ByteSize_append]

theorem byteSize_le (s : List Char) : (String.ofList s).utf8ByteSize <= 4 * s.length := by
  induction s with
  | nil => exact Nat.le_refl _
  | cons c s ih =>
      have hc : (String.ofList [c]).utf8ByteSize = c.utf8Size := by simp
      have hsize := c.utf8Size_le_four
      rw [← singleton_append, byteSize_append, hc, length_append, length_singleton]
      omega

theorem hostIsAcceptable_of_addr (hsize : (String.ofList host).utf8ByteSize <= 253)
    (haddr : isIpAddr (bareHost host) = true) : hostIsAcceptable host = true := by
  have hne : host.isEmpty = false := by
    cases host with
    | nil => exact absurd haddr (by decide)
    | cons c host => rfl
  unfold hostIsAcceptable
  rw [hne, if_neg (fun h => h.elim nofun (Nat.not_lt.mpr hsize)), if_pos haddr]

theorem bareHost_of_readIpv4 {s : List Char} (h : readIpv4 s = some []) : bareHost s = s := by
  rcases bareHost_cases s with ⟨t, ht, -⟩ | ⟨hbare, -⟩
  · rcases takes_readIpv4 s [] h with ⟨front, hfront, hchars, -⟩
    have hbracket : IsIpv4Char '[' := by
      apply hchars
      rw [append_nil] at hfront
      rw [← hfront, ht]
      exact mem_cons_self
    unfold IsIpv4Char at hbracket
    exact absurd hbracket (by decide)
  · exact hbare

/-- Four parts in brackets, which are never written so. -/
def BracketsForIpv4 (host : List Char) : Prop :=
  exists v4, readIpv4 v4 = some [] ∧ host = '[' :: (v4 ++ [']'])

/-- An accepted host is written as one that is accepted in an endpoint. -/
theorem shownHost_accepted (h : hostIsAcceptable host = true) :
    hostIsAcceptable (shownHost host) = true ∧
      (':' ∈ shownHost host ->
        (shownHost host).head? = some '[' ∧ (shownHost host).getLast? = some ']') ∧
      shownHost (shownHost host) = shownHost host := by
  have hsize : (String.ofList host).utf8ByteSize <= 253 := by
    unfold hostIsAcceptable at h
    split at h
    · cases h
    · rename_i hsize
      omega
  rcases host_kinds h with ⟨s, hs, haddr⟩ | ⟨hbare, haddr⟩
  · have hbare : bareHost host = s := by rw [hs, bareHost_brackets]
    rcases (isIpAddr_iff s).mp haddr with hv4 | hv6
    · have hnot : isIpv6Addr s = false := by
        rw [← Bool.not_eq_true]
        intro hv6
        rw [readIpv4_of_isIpv6Addr hv6] at hv4
        cases hv4
      have hshown : forall t, bareHost t = s -> shownHost t = s := by
        intro t ht
        unfold shownHost
        rw [ht, hnot, if_neg Bool.false_ne_true]
      have hself := bareHost_of_readIpv4 hv4
      rw [hshown host hbare]
      refine ⟨hostIsAcceptable_of_addr ?_ ?_, ?_, hshown s hself⟩
      · rw [hs, ← singleton_append, byteSize_append, byteSize_append] at hsize
        omega
      · rw [hself]
        exact haddr
      · intro hcolon
        exact absurd hcolon (colon_not_mem_of_readIpv4 hv4)
    · have hshown : shownHost host = host := by
        unfold shownHost
        rw [hbare, if_pos hv6, hs]
      rw [hshown, hshown]
      refine ⟨h, fun _ => ?_, rfl⟩
      rw [hs, ← cons_append, getLast?_concat]
      exact ⟨rfl, rfl⟩
  · cases hv6 : isIpv6Addr host with
    | true =>
        rcases isIpv6Addr_short hv6 with ⟨hlength, -⟩
        have hshown : shownHost host = '[' :: (host ++ [']']) := by
          unfold shownHost
          rw [hbare, if_pos hv6]
        have hagain : shownHost ('[' :: (host ++ [']'])) = '[' :: (host ++ [']']) := by
          unfold shownHost
          rw [bareHost_brackets, if_pos hv6]
        rw [hshown]
        refine ⟨hostIsAcceptable_of_addr ?_ ?_, fun _ => ?_, hagain⟩
        · refine Nat.le_trans (byteSize_le _) ?_
          rw [length_cons, length_append, length_singleton]
          omega
        · rw [bareHost_brackets]
          exact (isIpAddr_iff host).mpr (Or.inr hv6)
        · rw [← cons_append, getLast?_concat]
          exact ⟨rfl, rfl⟩
    | false =>
        have hshown : shownHost host = host := by
          unfold shownHost
          rw [hbare, hv6, if_neg Bool.false_ne_true]
        rw [hshown, hshown]
        refine ⟨h, fun hcolon => ?_, rfl⟩
        rcases haddr with haddr | hnone
        · rcases (isIpAddr_iff host).mp haddr with hv4 | hv6'
          · exact absurd hcolon (colon_not_mem_of_readIpv4 hv4)
          · rw [hv6] at hv6'
            cases hv6'
        · exact absurd hcolon hnone

theorem shownHost_eq_iff (h : hostIsAcceptable host = true)
    (hcolon : ':' ∈ host -> host.head? = some '[' ∧ host.getLast? = some ']') :
    shownHost host = host <-> ¬ BracketsForIpv4 host := by
  constructor
  · rintro hshown ⟨v4, hv4, hhost⟩
    have hnot : isIpv6Addr v4 = false := by
      rw [← Bool.not_eq_true]
      intro hv6
      rw [readIpv4_of_isIpv6Addr hv6] at hv4
      cases hv4
    unfold shownHost at hshown
    rw [hhost, bareHost_brackets, hnot, if_neg Bool.false_ne_true] at hshown
    have hlength := congrArg List.length hshown
    rw [length_cons, length_append] at hlength
    omega
  · intro hnot
    unfold shownHost
    rcases host_kinds h with ⟨s, hs, haddr⟩ | ⟨hbare, -⟩
    · rw [hs, bareHost_brackets]
      rcases (isIpAddr_iff s).mp haddr with hv4 | hv6
      · exact absurd ⟨s, hv4, hs⟩ hnot
      · rw [if_pos hv6]
    · rw [hbare, if_neg]
      intro hv6
      rcases bareHost_cases host with ⟨s, hs, hbare'⟩ | ⟨-, hbrackets⟩
      · have hlength := congrArg List.length (hbare'.symm.trans hbare)
        rw [hs, length_cons, length_append] at hlength
        omega
      · exact hbrackets (hcolon (isIpv6Addr_short hv6).right)

/-!
## Endpoints
-/

/-- A host that an endpoint may name, and a port number that is not zero. -/
structure NamesEndpoint (e : String) (host port : List Char) (n : Nat) : Prop where
  text : e.toList = host ++ ':' :: port
  last : ':' ∉ port
  number : parseUnsigned 65535 port = some n
  positive : n ≠ 0
  accepted : hostIsAcceptable host = true
  brackets : ':' ∈ host -> host.head? = some '[' ∧ host.getLast? = some ']'

theorem endpointIsAcceptable_iff (e : String) :
    endpointIsAcceptable e = true <-> exists host port n, NamesEndpoint e host port n := by
  constructor
  · intro h
    unfold endpointIsAcceptable at h
    cases hsplit : rsplitOnce ':' e.toList with
    | none =>
        rw [hsplit] at h
        cases h
    | some parts =>
        rcases parts with ⟨host, port⟩
        rw [hsplit] at h
        rcases eq_of_rsplitOnce hsplit with ⟨htext, hlast⟩
        simp only [Bool.and_eq_true, Bool.or_eq_true, Bool.not_eq_true', beq_iff_eq] at h
        rcases h with ⟨⟨hport, hhost⟩, hbrackets⟩
        cases hnumber : parseUnsigned 65535 port with
        | none =>
            rw [hnumber] at hport
            cases hport
        | some n =>
            rw [hnumber] at hport
            refine ⟨host, port, n, htext, hlast, hnumber, of_decide_eq_true hport, hhost, ?_⟩
            intro hcolon
            rcases hbrackets with hnone | hbrackets
            · rw [contains_eq_mem, decide_eq_false_iff_not] at hnone
              exact absurd hcolon hnone
            · exact hbrackets
  · rintro ⟨host, port, n, h⟩
    unfold endpointIsAcceptable
    rw [h.text, rsplitOnce_append host h.last]
    dsimp only
    rw [h.number, h.accepted]
    simp only [Option.map_some, Option.getD_some, Bool.and_true, Bool.and_eq_true,
      Bool.or_eq_true, Bool.not_eq_true', beq_iff_eq, decide_eq_true_eq]
    refine ⟨h.positive, ?_⟩
    by_cases hcolon : ':' ∈ host
    · exact Or.inr (h.brackets hcolon)
    · left
      rw [contains_eq_mem]
      exact decide_eq_false hcolon

theorem colon_not_mem_toDigits (n : Nat) : ':' ∉ Nat.toDigits 10 n := by
  intro hmem
  exact absurd ((digits_toDigits n).right ':' hmem) (by decide)

theorem namesEndpoint_endpoint {port : UInt16} (hhost : hostIsAcceptable host = true)
    (hport : port ≠ 0) :
    NamesEndpoint (endpoint host port) (shownHost host) (Nat.toDigits 10 port.toNat)
      port.toNat := by
  rcases shownHost_accepted hhost with ⟨haccepted, hbrackets, -⟩
  refine ⟨?_, colon_not_mem_toDigits _, ?_, ?_, haccepted, hbrackets⟩
  · unfold endpoint
    rw [String.toList_ofList]
  · have hlt := port.toNat_lt
    exact parseUnsigned_toDigits (by omega)
  · intro hzero
    exact hport (UInt16.toNat.inj hzero)

theorem NamesEndpoint.unique {e : String} {host' port port' : List Char} {n n' : Nat}
    (h : NamesEndpoint e host port n) (h' : NamesEndpoint e host' port' n') :
    host = host' ∧ port = port' ∧ n = n' := by
  have hsplit := rsplitOnce_append host h.last
  have hsplit' := rsplitOnce_append host' h'.last
  rw [← h.text] at hsplit
  rw [← h'.text, hsplit] at hsplit'
  cases hsplit'
  have hnumber := h'.number
  rw [h.number] at hnumber
  cases hnumber
  exact ⟨rfl, rfl, rfl⟩

/-- A port in another spelling than plain decimal, or four parts in brackets. -/
def Misspelt (host port : List Char) (n : Nat) : Prop :=
  port ≠ Nat.toDigits 10 n ∨ BracketsForIpv4 host

theorem written_iff {e : String} {port : List Char} {n : Nat} (h : NamesEndpoint e host port n) :
    (exists host' : List Char, exists port' : UInt16, hostIsAcceptable host' = true ∧
      port' ≠ 0 ∧ e = endpoint host' port') <-> ¬ Misspelt host port n := by
  unfold Misspelt
  rw [not_or, not_not, ← shownHost_eq_iff h.accepted h.brackets]
  constructor
  · rintro ⟨host', port', hhost', hport', rfl⟩
    rcases h.unique (namesEndpoint_endpoint hhost' hport') with ⟨rfl, rfl, rfl⟩
    exact ⟨rfl, (shownHost_accepted hhost').right.right⟩
  · rintro ⟨hport, hshown⟩
    have hle := le_of_parseUnsigned h.number
    have hnat : (UInt16.ofNat n).toNat = n := UInt16.toNat_ofNat_of_lt' (by
      show n < 65536
      omega)
    refine ⟨host, UInt16.ofNat n, h.accepted, ?_, ?_⟩
    · intro hzero
      apply h.positive
      rw [← hnat, hzero]
      rfl
    · unfold endpoint
      rw [hshown, hnat, ← hport, ← h.text, String.ofList_toList]

/--
What is accepted in a grant is what is written for a host and a port, but where the port has
a plus or zeros before its digits, and where an address of four parts has brackets.
-/
theorem endpoint_accepted_iff_written (e : String) :
    (endpointIsAcceptable e = true <->
        exists host : List Char, exists port : UInt16, hostIsAcceptable host = true ∧
          port ≠ 0 ∧ e = endpoint host port) <->
      ¬ exists host port n, NamesEndpoint e host port n ∧ Misspelt host port n := by
  rw [endpointIsAcceptable_iff]
  constructor
  · rintro h ⟨host, port, n, hnames, hmisspelt⟩
    exact (written_iff hnames).mp (h.mp ⟨host, port, n, hnames⟩) hmisspelt
  · intro h
    constructor
    · rintro ⟨host, port, n, hnames⟩
      exact (written_iff hnames).mpr (fun hmisspelt => h ⟨host, port, n, hnames, hmisspelt⟩)
    · rintro ⟨host, port, hhost, hport, rfl⟩
      exact ⟨_, _, _, namesEndpoint_endpoint hhost hport⟩

/-- A port with a plus is accepted, and never written. -/
theorem plus_port_accepted :
    ¬ (forall e : String, endpointIsAcceptable e = true <->
      exists host : List Char, exists port : UInt16, hostIsAcceptable host = true ∧
        port ≠ 0 ∧ e = endpoint host port) := by
  intro hall
  rcases (hall "x:+1").mp (by decide) with ⟨host, port, -, -, hwritten⟩
  have htext : "x:+1".toList = shownHost host ++ ':' :: Nat.toDigits 10 port.toNat := by
    rw [hwritten]
    exact String.toList_ofList
  have hmem : '+' ∈ Nat.toDigits 10 port.toNat := by
    have hsplit := rsplitOnce_append (shownHost host) (colon_not_mem_toDigits port.toNat)
    have hknown : rsplitOnce ':' "x:+1".toList = some ("x".toList, "+1".toList) := by decide
    rw [← htext, hknown] at hsplit
    have hdigits := congrArg Prod.snd (Option.some.inj hsplit)
    dsimp only at hdigits
    rw [← hdigits]
    decide
  exact absurd ((digits_toDigits _).right '+' hmem) (by decide)

end Rabbithole.Federation
