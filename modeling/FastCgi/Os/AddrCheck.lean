import FastCgi.App.Reader
import FastCgi.Lib.Numeral
import FastCgi.Lib.Search

/-!
The address check under Windows (`libfcgi/os_win32.c`): `isAddrOK` looks for
the peer in the list of `FCGI_WEB_SERVER_ADDRS`.

It takes the first place where the text of the address occurs, and asks for
a separator on either side of it. An entry that contains the address and is
longer hides every listing behind it.
-/

namespace FastCgi.OsWin32

open Numeral Search

/-- `sin_addr`, in the order of the network. -/
structure InAddr where
  sB1 : UInt8
  sB2 : UInt8
  sB3 : UInt8
  sB4 : UInt8
  deriving DecidableEq

abbrev dot : UInt8 := 46

/-- `inet_ntoa`. -/
def inetNtoa (addr : InAddr) : List UInt8 :=
  decimal addr.sB1.toNat ++ dot :: (decimal addr.sB2.toNat ++
    dot :: (decimal addr.sB3.toNat ++ dot :: decimal addr.sB4.toNat))

/-- `token`. -/
def token : List UInt8 := ascii [' ', ',', ';', ':', '\t']

/-- `strchr(token, c) != NULL`, which the NUL of `token` satisfies too. -/
def isToken (c : UInt8) : Bool := c = 0 || token.contains c

/-- `strstr(s, t) - s`. -/
def strstr (s t : List UInt8) : Option ℕ := firstAt t s

/-- The character `s[i]` of a string, its NUL included. -/
def charAt (s : List UInt8) (i : ℕ) : UInt8 := s.getD i 0

/-- `isAddrOK`. -/
def isAddrOK (addr : InAddr) : Option CString → Bool
  | none => true
  | some okAddrs =>
      let ipaddr := inetNtoa addr
      match strstr okAddrs.bytes ipaddr with
      | none => false
      | some p =>
          if p = 0 then isToken (charAt okAddrs.bytes ipaddr.length)
          else if isToken (charAt okAddrs.bytes (p - 1)) then
            isToken (charAt okAddrs.bytes (p - 1 + (ipaddr.length + 1)))
          else false

/-! ### Lists of addresses -/

/-- A number of a dotted address. -/
structure IsOctet (text : List UInt8) : Prop where
  ne_nil : text ≠ []
  length_le : text.length ≤ 3
  digits : ∀ c ∈ text, isDecimal c = true
  le_255 : readDecimal text ≤ 255

/-- An address in dotted-decimal form. -/
def DottedDecimal (text : List UInt8) : Prop :=
  ∃ a b c d, IsOctet a ∧ IsOctet b ∧ IsOctet c ∧ IsOctet d ∧
    text = a ++ dot :: (b ++ dot :: (c ++ dot :: d))

/-- A text that lists the addresses `entries`, with at least one separator between two of
them. -/
inductive AddrList : List UInt8 → List (List UInt8) → Prop
  | nil {seps : List UInt8} (hseps : ∀ c ∈ seps, c ∈ token) : AddrList seps []
  | cons {seps entry rest : List UInt8} {entries : List (List UInt8)}
      (hseps : ∀ c ∈ seps, c ∈ token) (hentry : DottedDecimal entry)
      (hsep : ∀ c, rest.head? = some c → c ∈ token) (hrest : AddrList rest entries) :
      AddrList (seps ++ (entry ++ rest)) (entry :: entries)

theorem isToken_of_mem {c : UInt8} (h : c ∈ token) : isToken c = true := by
  rw [isToken, List.contains_iff_mem.mpr h, Bool.or_true]

theorem not_isToken_of_isDecimal {c : UInt8} (h : isDecimal c = true) : isToken c = false := by
  have hrange : 48 ≤ c.toNat ∧ c.toNat ≤ 57 := by simpa [isDecimal] using h
  have hne : ∀ t ∈ (0 : UInt8) :: token, c ≠ t := by
    rintro t ht rfl
    have hout : ∀ t ∈ (0 : UInt8) :: token, ¬(48 ≤ t.toNat ∧ t.toNat ≤ 57) := by
      simp [token, ascii]
    exact hout c ht hrange
  rw [isToken, Bool.or_eq_false_iff]
  refine ⟨decide_eq_false (hne 0 List.mem_cons_self), ?_⟩
  rw [← Bool.not_eq_true, List.contains_iff_mem]
  exact fun hmem => hne c (List.mem_cons_of_mem 0 hmem) rfl

theorem isDecimal_of_mem_decimal {n : ℕ} {c : UInt8} (h : c ∈ decimal n) :
    isDecimal c = true := by
  rw [decimal] at h
  split at h
  · rw [List.mem_singleton.mp h]
    decide
  · exact isDecimal_of_mem_numeral h

/-- No separator stands inside a dotted text. -/
theorem not_isToken_of_dotted {a b c d : List UInt8}
    (h : ∀ x ∈ a ++ (b ++ (c ++ d)), isDecimal x = true) {x : UInt8}
    (hx : x ∈ a ++ dot :: (b ++ dot :: (c ++ dot :: d))) : isToken x = false := by
  simp only [List.mem_append, List.mem_cons] at h hx
  by_cases hdot : x = dot
  · rw [hdot]
    decide
  · apply not_isToken_of_isDecimal
    apply h
    tauto

theorem not_isToken_of_mem_inetNtoa {addr : InAddr} {x : UInt8} (h : x ∈ inetNtoa addr) :
    isToken x = false := by
  refine not_isToken_of_dotted (fun y hy => ?_) h
  simp only [List.mem_append] at hy
  rcases hy with hy | hy | hy | hy <;> exact isDecimal_of_mem_decimal hy

theorem DottedDecimal.not_isToken {text : List UInt8} (h : DottedDecimal text) {x : UInt8}
    (hx : x ∈ text) : isToken x = false := by
  obtain ⟨a, b, c, d, ha, hb, hc, hd, rfl⟩ := h
  refine not_isToken_of_dotted (fun y hy => ?_) hx
  simp only [List.mem_append] at hy
  rcases hy with hy | hy | hy | hy
  · exact ha.digits y hy
  · exact hb.digits y hy
  · exact hc.digits y hy
  · exact hd.digits y hy

theorem inetNtoa_ne_nil (addr : InAddr) : inetNtoa addr ≠ [] := by simp [inetNtoa]

/-! ### The search in a list -/

/-- The verdict on a text that stands behind `prev`. -/
def delimited (ipaddr : List UInt8) (prev : UInt8) (s : List UInt8) : Bool :=
  match strstr s ipaddr with
  | none => false
  | some p => isToken (charAt (prev :: s) p) && isToken (charAt s (p + ipaddr.length))

theorem isAddrOK_eq (addr : InAddr) (okAddrs : CString) :
    isAddrOK addr (some okAddrs) = delimited (inetNtoa addr) 0 okAddrs.bytes := by
  rw [isAddrOK, delimited]
  cases strstr okAddrs.bytes (inetNtoa addr) with
  | none => rfl
  | some p =>
      cases p with
      | zero =>
          simp only [if_pos, Nat.zero_add]
          rfl
      | succ p =>
          have hend : p + ((inetNtoa addr).length + 1) = p + 1 + (inetNtoa addr).length := by omega
          have hprev : charAt (0 :: okAddrs.bytes) (p + 1) = charAt okAddrs.bytes p := rfl
          simp only [Nat.add_one_ne_zero, if_false, hprev, Nat.add_sub_cancel, hend]
          cases isToken (charAt okAddrs.bytes p) <;> rfl

section Search

variable {ip entry rest seps s : List UInt8} {entries : List (List UInt8)}

/-- A separator is passed. -/
theorem delimited_cons (hne : ip ≠ []) (hip : ∀ x ∈ ip, isToken x = false) {c : UInt8}
    (hc : c ∈ token) (prev : UInt8) (s : List UInt8) :
    delimited ip prev (c :: s) = delimited ip c s := by
  have hnot : c ∉ ip := fun hmem => by
    have hno := hip c hmem
    rw [isToken_of_mem hc] at hno
    cases hno
  rw [delimited, delimited, strstr, strstr, firstAt_cons_of_notMem hne hnot]
  cases firstAt ip s with
  | none => rfl
  | some p =>
      have hend : charAt (c :: s) (p + 1 + ip.length) = charAt s (p + ip.length) := by
        rw [show p + 1 + ip.length = p + ip.length + 1 by omega]
        rfl
      simp only [Option.map_some, hend]
      rfl

theorem delimited_seps (hne : ip ≠ []) (hip : ∀ x ∈ ip, isToken x = false)
    (hseps : ∀ c ∈ seps, c ∈ token) {prev : UInt8} (hprev : isToken prev = true)
    (s : List UInt8) :
    ∃ prev', isToken prev' = true ∧ delimited ip prev (seps ++ s) = delimited ip prev' s := by
  induction seps generalizing prev with
  | nil => exact ⟨prev, hprev, rfl⟩
  | cons c seps ih =>
      have hc : c ∈ token := hseps c List.mem_cons_self
      obtain ⟨prev', hprev', heq⟩ :=
        ih (fun x hx => hseps x (List.mem_cons_of_mem c hx)) (isToken_of_mem hc)
      refine ⟨prev', hprev', ?_⟩
      rw [List.cons_append, delimited_cons hne hip hc, heq]

theorem barrier_of_sep (hip : ∀ x ∈ ip, isToken x = false)
    (hsep : ∀ c, rest.head? = some c → c ∈ token) : Barrier ip rest := by
  intro c hc hmem
  have htoken := isToken_of_mem (hsep c hc)
  rw [hip c hmem] at htoken
  cases htoken

/-- An entry in which the address does not occur is passed. -/
theorem delimited_other (hne : ip ≠ []) (hip : ∀ x ∈ ip, isToken x = false)
    (hsep : ∀ c, rest.head? = some c → c ∈ token) (hother : ¬ip <:+: entry) (prev prev' : UInt8) :
    delimited ip prev (entry ++ rest) = delimited ip prev' rest := by
  have hbarrier := barrier_of_sep hip hsep
  rw [delimited, delimited, strstr, strstr, firstAt_append hne hbarrier,
    firstAt_eq_none_iff.mpr hother, Option.none_or]
  cases rest with
  | nil => simp [firstAt, hne]
  | cons c rest =>
      rw [firstAt_cons_of_notMem hne (hbarrier c rfl)]
      cases firstAt ip rest with
      | none => rfl
      | some p =>
          have hfront : charAt (prev :: (entry ++ c :: rest)) (p + 1 + entry.length) =
              charAt (prev' :: c :: rest) (p + 1) := by
            rw [charAt, charAt, show p + 1 + entry.length = entry.length + p + 1 by omega,
              List.getD_cons_succ, List.getD_cons_succ, List.getD_append_right _ _ _ _ (by omega),
              Nat.add_sub_cancel_left]
          have hend : charAt (entry ++ c :: rest) (p + 1 + entry.length + ip.length) =
              charAt (c :: rest) (p + 1 + ip.length) := by
            rw [charAt, charAt, List.getD_append_right _ _ _ _ (by omega)]
            congr 1
            omega
          simp only [Option.map_some, hfront, hend]

/-- The first entry in which the address occurs decides: it is the address, or it is longer. -/
theorem delimited_holder (hne : ip ≠ []) (hip : ∀ x ∈ ip, isToken x = false)
    (hentry : ∀ x ∈ entry, isToken x = false) (hsep : ∀ c, rest.head? = some c → c ∈ token)
    (hinside : ip <:+: entry) {prev : UInt8} (hprev : isToken prev = true) :
    delimited ip prev (entry ++ rest) = true ↔ entry = ip := by
  have hend : isToken (charAt rest 0) = true := by
    cases rest with
    | nil => rfl
    | cons c rest => exact isToken_of_mem (hsep c rfl)
  have hbarrier := barrier_of_sep hip hsep
  rw [delimited, strstr, firstAt_append hne hbarrier]
  obtain ⟨p, hp⟩ : ∃ p, firstAt ip entry = some p := by
    cases h : firstAt ip entry with
    | none => exact absurd hinside (firstAt_eq_none_iff.mp h)
    | some p => exact ⟨p, rfl⟩
  rw [hp, Option.some_or]
  simp only [Bool.and_eq_true]
  constructor
  · rintro ⟨hfront, hback⟩
    obtain ⟨tail, htail⟩ := prefix_drop_of_firstAt hp
    -- a place inside the entry has a character of the entry in front of it
    have hp0 : p = 0 := by
      cases p with
      | zero => rfl
      | succ p =>
          have hlt : p < entry.length := by
            have hlen := congrArg List.length htail
            have hpos := List.length_pos_iff.mpr hne
            simp only [List.length_append, List.length_drop] at hlen
            omega
          have hchar : charAt (prev :: (entry ++ rest)) (p + 1) = entry[p] := by
            rw [charAt, List.getD_cons_succ, List.getD_append _ _ _ _ hlt,
              List.getD_eq_getElem _ _ hlt]
          rw [hchar, hentry _ (List.getElem_mem hlt)] at hfront
          cases hfront
    subst hp0
    cases tail with
    | nil => simpa using htail.symm
    | cons x tail =>
        have hchar : charAt (entry ++ rest) (0 + ip.length) = x := by
          rw [show entry = ip ++ x :: tail from htail.symm]
          simp [charAt]
        rw [hchar, hentry x (by rw [show entry = ip ++ x :: tail from htail.symm]; simp)] at hback
        cases hback
  · rintro rfl
    obtain rfl : p = 0 := by
      have hself := firstAt_self_append hne []
      rw [List.append_nil, hp] at hself
      exact Option.some.inj hself
    refine ⟨hprev, ?_⟩
    have hchar : charAt (entry ++ rest) (0 + entry.length) = charAt rest 0 := by
      rw [charAt, charAt, List.getD_append_right _ _ _ _ (by omega)]
      congr 1
      omega
    rw [hchar, hend]

/-- **The verdict is that of the first entry in which the address occurs.** -/
theorem delimited_iff (hne : ip ≠ []) (hip : ∀ x ∈ ip, isToken x = false)
    (h : AddrList s entries) {prev : UInt8} (hprev : isToken prev = true) :
    delimited ip prev s = true ↔ entries.find? (ip <:+: ·) = some ip := by
  induction h generalizing prev with
  | nil hseps =>
      obtain ⟨prev', -, heq⟩ := delimited_seps hne hip hseps hprev []
      rw [List.append_nil] at heq
      rw [heq]
      simp [delimited, strstr, firstAt, hne]
  | cons hseps hentry hsep _ ih =>
      obtain ⟨prev', hprev', heq⟩ := delimited_seps hne hip hseps hprev _
      rw [heq, List.find?_cons]
      split
      · next hinside =>
          rw [delimited_holder hne hip (fun x hx => hentry.not_isToken hx) hsep
            (of_decide_eq_true hinside) hprev', Option.some.injEq]
      · next hother =>
          rw [delimited_other hne hip hsep (of_decide_eq_false hother) prev' 0]
          exact ih rfl

end Search

theorem find?_eq_some_iff_of_mem {ip : List UInt8} {entries : List (List UInt8)}
    (hmem : ip ∈ entries) : entries.find? (ip <:+: ·) = some ip ↔
      ∀ e ∈ entries.takeWhile (· ≠ ip), ¬ip <:+: e := by
  induction entries with
  | nil => cases hmem
  | cons e entries ih =>
      rw [List.find?_cons, List.takeWhile_cons]
      by_cases heq : e = ip
      · simp [heq]
      · have hrest : ip ∈ entries := by
          rcases List.mem_cons.mp hmem with h | h
          · exact absurd h.symm heq
          · exact h
        by_cases hinside : ip <:+: e
        · simp [heq, hinside]
        · simpa [heq, hinside] using ih hrest

/-- **The check is list membership, unless an entry in front of the address contains it.** -/
theorem isAddrOK_member_iff {okAddrs : CString} {entries : List (List UInt8)}
    (h : AddrList okAddrs.bytes entries) (addr : InAddr) :
    (isAddrOK addr (some okAddrs) = true ↔ inetNtoa addr ∈ entries) ↔
      (inetNtoa addr ∈ entries →
        ∀ e ∈ entries.takeWhile (· ≠ inetNtoa addr), ¬inetNtoa addr <:+: e) := by
  rw [isAddrOK_eq, delimited_iff (inetNtoa_ne_nil addr)
    (fun _ hx => not_isToken_of_mem_inetNtoa hx) h rfl]
  by_cases hmem : inetNtoa addr ∈ entries
  · rw [find?_eq_some_iff_of_mem hmem]
    simp only [hmem, iff_true, true_imp_iff]
  · have hnone : entries.find? (inetNtoa addr <:+: ·) ≠ some (inetNtoa addr) :=
      fun hfind => hmem (List.mem_of_find?_eq_some hfind)
    simp only [hmem, hnone, iff_self, false_imp_iff]

/-- The address 10.0.0.1. -/
def tenAddr : InAddr := ⟨10, 0, 0, 1⟩

/-- The list that names 110.0.0.1 in front of it. -/
def hidingAddrs : CString where
  bytes := ascii ['1', '1', '0', '.', '0', '.', '0', '.', '1', ' ', '1', '0', '.', '0', '.', '0',
    '.', '1']
  noNul := by decide

/-- The list in the other order. -/
def openAddrs : CString where
  bytes := ascii ['1', '0', '.', '0', '.', '0', '.', '1', ' ', '1', '1', '0', '.', '0', '.', '0',
    '.', '1']
  noNul := by decide

theorem addrList_pair {a b : List UInt8} (ha : DottedDecimal a) (hb : DottedDecimal b) :
    AddrList (a ++ 32 :: b) [a, b] := by
  have hlast : AddrList [] [] := .nil fun c hc => absurd hc List.not_mem_nil
  have hb' : AddrList (32 :: b) [b] := by
    have hseps : ∀ c ∈ [(32 : UInt8)], c ∈ token := by simp [token, ascii]
    have hlist : AddrList ([32] ++ (b ++ [])) [b] :=
      .cons hseps hb (fun c hc => by cases hc) hlast
    simpa using hlist
  change AddrList ([] ++ (a ++ 32 :: b)) [a, b]
  refine .cons (fun c hc => absurd hc List.not_mem_nil) ha ?_ hb'
  intro c hc
  cases hc
  decide

theorem isOctet_decimal (b : UInt8) : IsOctet (decimal b.toNat) := by
  have hall : ∀ n < 256, decimal n ≠ [] ∧ (decimal n).length ≤ 3 ∧ readDecimal (decimal n) ≤ 255 := by
    decide +kernel
  obtain ⟨hne, hlen, hval⟩ := hall b.toNat b.toNat_lt
  exact ⟨hne, hlen, fun c hc => isDecimal_of_mem_decimal hc, hval⟩

/-- An address is printed in dotted-decimal form. -/
theorem dottedDecimal_inetNtoa (addr : InAddr) : DottedDecimal (inetNtoa addr) :=
  ⟨_, _, _, _, isOctet_decimal _, isOctet_decimal _, isOctet_decimal _, isOctet_decimal _, rfl⟩

/-- An address that is listed is refused. -/
theorem isAddrOK_hidden : AddrList hidingAddrs.bytes [inetNtoa ⟨110, 0, 0, 1⟩, inetNtoa tenAddr] ∧
    ¬(isAddrOK tenAddr (some hidingAddrs) = true ↔
      inetNtoa tenAddr ∈ [inetNtoa ⟨110, 0, 0, 1⟩, inetNtoa tenAddr]) := by
  constructor
  · have hlist := addrList_pair (dottedDecimal_inetNtoa ⟨110, 0, 0, 1⟩)
      (dottedDecimal_inetNtoa tenAddr)
    exact hlist
  · decide +kernel

theorem isAddrOK_member_iff_pair :
    AddrList openAddrs.bytes [inetNtoa tenAddr, inetNtoa ⟨110, 0, 0, 1⟩] ∧
      (isAddrOK tenAddr (some openAddrs) = true ↔
        inetNtoa tenAddr ∈ [inetNtoa tenAddr, inetNtoa ⟨110, 0, 0, 1⟩]) := by
  have hlist : AddrList openAddrs.bytes [inetNtoa tenAddr, inetNtoa ⟨110, 0, 0, 1⟩] :=
    addrList_pair (dottedDecimal_inetNtoa tenAddr) (dottedDecimal_inetNtoa ⟨110, 0, 0, 1⟩)
  refine ⟨hlist, (isAddrOK_member_iff hlist tenAddr).mpr fun _ e he => ?_⟩
  simp at he

end FastCgi.OsWin32
