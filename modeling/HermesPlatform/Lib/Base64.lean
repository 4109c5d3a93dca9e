/-
  HermesPlatform.Lib.Base64

  Base64 as Python's `base64` and `binascii` read and write it.

  `a2bBase64` is the decoder with its strict mode: the lenient one skips what is
  not in the alphabet, accepts set bits behind the last byte and stops at the
  padding.  `base64url` is the encoder without padding.  `decodeCanonical` keeps of
  the decoder's answers those that the encoder maps back to the input, so in either
  mode it accepts just the encodings (`decodeCanonical_eq_some`).
-/

import Mathlib.Data.List.DropRight

namespace HermesPlatform
namespace Base64

/-! ## Encoding -/

/-- The URL-safe alphabet. -/
def sextetChar (n : Nat) : Char :=
  if n < 26 then Char.ofNat (65 + n)
  else if n < 52 then Char.ofNat (71 + n)
  else if n < 62 then Char.ofNat (n - 4)
  else if n = 62 then '-'
  else '_'

/-- `base64.urlsafe_b64encode`. -/
def urlsafeB64encode : List UInt8 → List Char
  | [] => []
  | [a] => [sextetChar (a.toNat / 4), sextetChar (a.toNat % 4 * 16), '=', '=']
  | [a, b] =>
      [sextetChar (a.toNat / 4), sextetChar (a.toNat % 4 * 16 + b.toNat / 16),
        sextetChar (b.toNat % 16 * 4), '=']
  | a :: b :: c :: rest =>
      sextetChar (a.toNat / 4) :: sextetChar (a.toNat % 4 * 16 + b.toNat / 16) ::
        sextetChar (b.toNat % 16 * 4 + c.toNat / 64) :: sextetChar (c.toNat % 64) ::
        urlsafeB64encode rest

/-- `urlsafe_b64encode(value).rstrip(b"=")`. -/
def base64url (value : List UInt8) : List Char := (urlsafeB64encode value).rdropWhile (· = '=')

/-! ## Decoding -/

/-- The value of a character of the standard alphabet. -/
def sextet? (c : Char) : Option Nat :=
  if c.isUpper then some (c.toNat - 65)
  else if c.isLower then some (c.toNat - 71)
  else if c.isDigit then some (c.toNat + 4)
  else if c = '+' then some 62
  else if c = '/' then some 63
  else none

/-- The loop of `a2b_base64`.  `quad` characters of a group of four have been read,
    `left` is what the last of them left over; `pads` padding characters followed. -/
def a2bFrom (strict : Bool) : List Char → Nat → Nat → Nat → Bool → Option (List UInt8)
  | [], quad, _, _, _ => if quad = 0 then some [] else none
  | c :: rest, quad, left, pads, padding =>
      if c = '=' then
        if quad < 2 then a2bFrom strict rest quad left pads true
        else if quad + (pads + 1) < 4 then a2bFrom strict rest quad left (pads + 1) true
        else if strict && rest ≠ [] then none
        else some []
      else
        match sextet? c with
        | none => if strict then none else a2bFrom strict rest quad left pads padding
        | some n =>
            if strict && padding then none
            else
              match quad with
              | 0 => a2bFrom strict rest 1 n 0 padding
              | 1 => (a2bFrom strict rest 2 (n % 16) 0 padding).map (UInt8.ofNat (left * 4 + n / 16) :: ·)
              | 2 => (a2bFrom strict rest 3 (n % 4) 0 padding).map (UInt8.ofNat (left * 16 + n / 4) :: ·)
              | _ => (a2bFrom strict rest 0 0 0 padding).map (UInt8.ofNat (left * 64 + n) :: ·)

/-- `binascii.a2b_base64(text, strict_mode=strict)`. -/
def a2bBase64 (strict : Bool) (text : List Char) : Option (List UInt8) :=
  if strict && text.head? = some '=' then none else a2bFrom strict text 0 0 0 false

/-- The URL-safe alphabet stands for the standard one, which is accepted too. -/
def standardChar (c : Char) : Char := if c = '-' then '+' else if c = '_' then '/' else c

/-- `base64.b64decode(text, altchars=b"-_", validate=strict)`, which is
    `base64.urlsafe_b64decode(text)` where it is not strict. -/
def b64decode (strict : Bool) (text : List Char) : Option (List UInt8) :=
  if text.all fun c => c.toNat < 128 then a2bBase64 strict (text.map standardChar) else none

/-- `"=" * (-len(value) % 4)`. -/
def padding (value : List Char) : List Char :=
  List.replicate ((-(value.length : Int)) % 4).toNat '='

/-- Decodes a value that the encoder maps back to itself. -/
def decodeCanonical (strict : Bool) (value : List Char) : Option (List UInt8) :=
  match b64decode strict (value ++ padding value) with
  | none => none
  | some decoded => if base64url decoded = value then some decoded else none

/-! ## The alphabet -/

/-- A character of the URL-safe alphabet. -/
def isUrlsafe (c : Char) : Bool := c.toNat < 128 && (c.isAlphanum || c = '-' || c = '_')

theorem sextetChar_spec : ∀ n < 64, sextet? (standardChar (sextetChar n)) = some n ∧
    isUrlsafe (sextetChar n) = true ∧ standardChar (sextetChar n) ≠ '=' := by
  decide

theorem ne_of_isUrlsafe {c d : Char} (hc : isUrlsafe c = true) (hd : isUrlsafe d = false) : c ≠ d := by
  rintro rfl
  rw [hd] at hc
  cases hc

theorem ascii_of_isUrlsafe {c : Char} (hc : isUrlsafe c = true) : c.toNat < 128 := by
  simp only [isUrlsafe, Bool.and_eq_true, decide_eq_true_eq] at hc
  exact hc.1

/-! ## The encoder's text -/

/-- The text without its padding. -/
structure Body (value : List UInt8) (body : List Char) (pads : Nat) : Prop where
  text : urlsafeB64encode value = body ++ List.replicate pads '='
  plain : ∀ c ∈ body, isUrlsafe c = true
  length : (body.length + pads) % 4 = 0
  pads : pads < 4

theorem exists_body : ∀ value : List UInt8, ∃ body pads, Body value body pads := by
  have hsextet : ∀ n < 64, isUrlsafe (sextetChar n) = true :=
    fun n hn => (sextetChar_spec n hn).2.1
  intro value
  induction value using urlsafeB64encode.induct with
  | case1 => exact ⟨[], 0, rfl, by simp, rfl, by decide⟩
  | case2 a =>
      have ha := a.toNat_lt
      refine ⟨[sextetChar (a.toNat / 4), sextetChar (a.toNat % 4 * 16)], 2, rfl, ?_, by simp, by decide⟩
      simp only [List.forall_mem_cons, List.not_mem_nil, false_implies, implies_true, and_true]
      exact ⟨hsextet _ (by omega), hsextet _ (by omega)⟩
  | case3 a b =>
      have ha := a.toNat_lt
      have hb := b.toNat_lt
      refine ⟨[sextetChar (a.toNat / 4), sextetChar (a.toNat % 4 * 16 + b.toNat / 16),
        sextetChar (b.toNat % 16 * 4)], 1, rfl, ?_, by simp, by decide⟩
      simp only [List.forall_mem_cons, List.not_mem_nil, false_implies, implies_true, and_true]
      exact ⟨hsextet _ (by omega), hsextet _ (by omega), hsextet _ (by omega)⟩
  | case4 a b c rest ih =>
      have ha := a.toNat_lt
      have hb := b.toNat_lt
      have hc := c.toNat_lt
      obtain ⟨body, pads, hbody⟩ := ih
      refine ⟨sextetChar (a.toNat / 4) :: sextetChar (a.toNat % 4 * 16 + b.toNat / 16) ::
        sextetChar (b.toNat % 16 * 4 + c.toNat / 64) :: sextetChar (c.toNat % 64) :: body, pads,
        ?_, ?_, ?_, hbody.pads⟩
      · rw [urlsafeB64encode, hbody.text]
        rfl
      · simp only [List.forall_mem_cons]
        exact ⟨hsextet _ (by omega), hsextet _ (by omega), hsextet _ (by omega),
          hsextet _ (by omega), hbody.plain⟩
      · have := hbody.length
        simp only [List.length_cons]
        omega

theorem rdropWhile_padding {body : List Char} (h : ∀ c ∈ body, c ≠ '=') (pads : Nat) :
    (body ++ List.replicate pads '=').rdropWhile (· = '=') = body := by
  induction pads with
  | zero =>
      rw [List.replicate_zero, List.append_nil, List.rdropWhile_eq_self_iff]
      intro hne
      simpa using h _ (List.getLast_mem hne)
  | succ n ih =>
      rw [List.replicate_succ', ← List.append_assoc, List.rdropWhile_concat_pos]
      · exact ih
      · simp

theorem base64url_of_body {value : List UInt8} {body : List Char} {pads : Nat}
    (h : Body value body pads) : base64url value = body := by
  rw [base64url, h.text]
  exact rdropWhile_padding (fun c hc => ne_of_isUrlsafe (h.plain c hc) rfl) pads

/-- The padding that the decoder appends is the one that the encoder had stripped. -/
theorem base64url_append_padding (value : List UInt8) :
    base64url value ++ padding (base64url value) = urlsafeB64encode value := by
  obtain ⟨body, pads, h⟩ := exists_body value
  rw [base64url_of_body h, h.text, padding]
  have hlength := h.length
  have hpads := h.pads
  have hcount : ((-(body.length : Int)) % 4).toNat = pads := by omega
  rw [hcount]

theorem ascii_urlsafeB64encode (value : List UInt8) :
    (urlsafeB64encode value).all (fun c => c.toNat < 128) = true := by
  obtain ⟨body, pads, h⟩ := exists_body value
  rw [h.text, List.all_eq_true]
  intro c hc
  rcases List.mem_append.mp hc with hc | hc
  · exact decide_eq_true (ascii_of_isUrlsafe (h.plain c hc))
  · rw [List.eq_of_mem_replicate hc]
    rfl

/-! ## Round trip -/

section Places

variable (strict : Bool) {n : Nat} (hn : n < 64) (rest : List Char) (left : Nat)
include hn

/-- A character of the alphabet at the first place of a group. -/
theorem a2bFrom_first : a2bFrom strict (standardChar (sextetChar n) :: rest) 0 left 0 false =
    a2bFrom strict rest 1 n 0 false := by
  obtain ⟨hvalue, -, hpad⟩ := sextetChar_spec n hn
  rw [a2bFrom, if_neg hpad, hvalue, Bool.and_false]
  rfl

theorem a2bFrom_second : a2bFrom strict (standardChar (sextetChar n) :: rest) 1 left 0 false =
    (a2bFrom strict rest 2 (n % 16) 0 false).map (UInt8.ofNat (left * 4 + n / 16) :: ·) := by
  obtain ⟨hvalue, -, hpad⟩ := sextetChar_spec n hn
  rw [a2bFrom, if_neg hpad, hvalue, Bool.and_false]
  rfl

theorem a2bFrom_third : a2bFrom strict (standardChar (sextetChar n) :: rest) 2 left 0 false =
    (a2bFrom strict rest 3 (n % 4) 0 false).map (UInt8.ofNat (left * 16 + n / 4) :: ·) := by
  obtain ⟨hvalue, -, hpad⟩ := sextetChar_spec n hn
  rw [a2bFrom, if_neg hpad, hvalue, Bool.and_false]
  rfl

theorem a2bFrom_fourth : a2bFrom strict (standardChar (sextetChar n) :: rest) 3 left 0 false =
    (a2bFrom strict rest 0 0 0 false).map (UInt8.ofNat (left * 64 + n) :: ·) := by
  obtain ⟨hvalue, -, hpad⟩ := sextetChar_spec n hn
  rw [a2bFrom, if_neg hpad, hvalue, Bool.and_false]
  rfl

end Places

theorem ofNat_bits {a : UInt8} {n : Nat} (h : n = a.toNat) : UInt8.ofNat n = a := by
  rw [h, UInt8.ofNat_toNat]

theorem a2bFrom_urlsafeB64encode (strict : Bool) (value : List UInt8) :
    a2bFrom strict ((urlsafeB64encode value).map standardChar) 0 0 0 false = some value := by
  induction value using urlsafeB64encode.induct with
  | case1 => rfl
  | case2 a =>
      have ha := a.toNat_lt
      have hpad : a2bFrom strict ['=', '='] 2 (a.toNat % 4 * 16 % 16) 0 false = some [] := by
        cases strict <;> rfl
      have hlast : UInt8.ofNat (a.toNat / 4 * 4 + a.toNat % 4 * 16 / 16) = a := ofNat_bits (by omega)
      show a2bFrom strict (standardChar (sextetChar (a.toNat / 4)) ::
        standardChar (sextetChar (a.toNat % 4 * 16)) :: ['=', '=']) 0 0 0 false = some [a]
      rw [a2bFrom_first strict (by omega)]
      rw [a2bFrom_second strict (by omega)]
      rw [hpad, hlast]
      rfl
  | case3 a b =>
      have ha := a.toNat_lt
      have hb := b.toNat_lt
      have hpad : a2bFrom strict ['='] 3 (b.toNat % 16 * 4 % 4) 0 false = some [] := by
        cases strict <;> rfl
      have hfirst : UInt8.ofNat (a.toNat / 4 * 4 + (a.toNat % 4 * 16 + b.toNat / 16) / 16) = a :=
        ofNat_bits (by omega)
      have hlast : UInt8.ofNat ((a.toNat % 4 * 16 + b.toNat / 16) % 16 * 16 + b.toNat % 16 * 4 / 4) = b :=
        ofNat_bits (by omega)
      show a2bFrom strict (standardChar (sextetChar (a.toNat / 4)) ::
        standardChar (sextetChar (a.toNat % 4 * 16 + b.toNat / 16)) ::
        standardChar (sextetChar (b.toNat % 16 * 4)) :: ['=']) 0 0 0 false = some [a, b]
      rw [a2bFrom_first strict (by omega)]
      rw [a2bFrom_second strict (by omega)]
      rw [a2bFrom_third strict (by omega)]
      rw [hpad, hfirst, hlast]
      rfl
  | case4 a b c rest ih =>
      have ha := a.toNat_lt
      have hb := b.toNat_lt
      have hc := c.toNat_lt
      have hfirst : UInt8.ofNat (a.toNat / 4 * 4 + (a.toNat % 4 * 16 + b.toNat / 16) / 16) = a :=
        ofNat_bits (by omega)
      have hmiddle : UInt8.ofNat ((a.toNat % 4 * 16 + b.toNat / 16) % 16 * 16 +
          (b.toNat % 16 * 4 + c.toNat / 64) / 4) = b := ofNat_bits (by omega)
      have hlast : UInt8.ofNat ((b.toNat % 16 * 4 + c.toNat / 64) % 4 * 64 + c.toNat % 64) = c :=
        ofNat_bits (by omega)
      rw [urlsafeB64encode, List.map_cons, List.map_cons, List.map_cons, List.map_cons]
      rw [a2bFrom_first strict (by omega)]
      rw [a2bFrom_second strict (by omega)]
      rw [a2bFrom_third strict (by omega)]
      rw [a2bFrom_fourth strict (by omega)]
      rw [ih, hfirst, hmiddle, hlast]
      rfl

theorem head?_urlsafeB64encode (value : List UInt8) :
    ((urlsafeB64encode value).map standardChar).head? ≠ some '=' := by
  have hsextet : ∀ a : UInt8, standardChar (sextetChar (a.toNat / 4)) ≠ '=' := by
    intro a
    have ha := a.toNat_lt
    exact (sextetChar_spec _ (by omega)).2.2
  intro h
  cases value using urlsafeB64encode.induct with
  | case1 => cases h
  | case2 a => exact hsextet a (Option.some.inj h)
  | case3 a b => exact hsextet a (Option.some.inj h)
  | case4 a b c rest => exact hsextet a (Option.some.inj h)

theorem b64decode_urlsafeB64encode (strict : Bool) (value : List UInt8) :
    b64decode strict (urlsafeB64encode value) = some value := by
  rw [b64decode, if_pos (ascii_urlsafeB64encode value), a2bBase64, if_neg,
    a2bFrom_urlsafeB64encode]
  intro h
  simp only [Bool.and_eq_true, decide_eq_true_eq] at h
  exact head?_urlsafeB64encode value h.2

/-- **Canonical decoding.** In either mode just the encoding of a value decodes to it. -/
theorem decodeCanonical_eq_some (strict : Bool) {text : List Char} {value : List UInt8} :
    decodeCanonical strict text = some value ↔ text = base64url value := by
  refine ⟨?_, ?_⟩
  · intro h
    unfold decodeCanonical at h
    split at h
    · cases h
    · split at h
      · rename_i heq
        cases h
        exact heq.symm
      · cases h
  · rintro rfl
    rw [decodeCanonical, base64url_append_padding, b64decode_urlsafeB64encode]
    exact if_pos rfl

theorem isUrlsafe_base64url {value : List UInt8} {c : Char} (hc : c ∈ base64url value) :
    isUrlsafe c = true := by
  obtain ⟨body, pads, h⟩ := exists_body value
  rw [base64url_of_body h] at hc
  exact h.plain c hc

end Base64
end HermesPlatform
