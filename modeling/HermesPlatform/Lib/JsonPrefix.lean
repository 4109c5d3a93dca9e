/-
  HermesPlatform.Lib.JsonPrefix

  JSON texts that break off.

  A value that the reader has taken from the front of a text does not depend on what stands
  behind it, as soon as something has ended it (`readValue_append`).  So no proper beginning of
  the text of an object is a JSON text (`readText_beginning`).
-/

import HermesPlatform.Lib.JsonText

namespace HermesPlatform
namespace Json

variable {env : Decoders}

/-! ## Scanners -/

/-- A value has ended in front of such a rest. -/
def Ended (rest : List Char) : Prop :=
  ∃ c tail, rest = c :: tail ∧ (isBlank c = true ∨ isDelimiter c = true)

theorem Ended.ne_nil {rest : List Char} (h : Ended rest) : rest ≠ [] := by
  obtain ⟨c, tail, rfl, -⟩ := h
  exact List.cons_ne_nil c tail

theorem Ended.head_ne {c : Char} {rest : List Char} (h : Ended (c :: rest)) :
    c ≠ '.' ∧ c ≠ 'e' ∧ c ≠ 'E' := by
  obtain ⟨d, tail, heq, hd⟩ := h
  obtain ⟨rfl, rfl⟩ := List.cons.inj heq
  refine ⟨?_, ?_, ?_⟩ <;> rintro rfl <;> rcases hd with hd | hd <;> cases hd

theorem ended_of_skip {c : Char} {rest tail : List Char} (h : skip rest = c :: tail)
    (hc : isDelimiter c = true) : Ended rest := by
  cases rest with
  | nil => cases h
  | cons d rest =>
      by_cases hd : isBlank d = true
      · exact ⟨d, rest, rfl, .inl hd⟩
      · rw [skip_cons (Bool.eq_false_iff.mpr hd)] at h
        obtain ⟨rfl, rfl⟩ := List.cons.inj h
        exact ⟨d, rest, rfl, .inr hc⟩

theorem dropWhile_append {p : Char → Bool} {cs : List Char} (ys : List Char)
    (h : cs.dropWhile p ≠ []) :
    (cs ++ ys).takeWhile p = cs.takeWhile p ∧ (cs ++ ys).dropWhile p = cs.dropWhile p ++ ys := by
  induction cs with
  | nil => exact absurd rfl h
  | cons c cs ih =>
      by_cases hc : p c = true
      · rw [List.dropWhile_cons_of_pos hc] at h
        obtain ⟨htake, hdrop⟩ := ih h
        rw [List.cons_append, List.takeWhile_cons_of_pos hc, List.takeWhile_cons_of_pos hc,
          List.dropWhile_cons_of_pos hc, List.dropWhile_cons_of_pos hc, htake, hdrop]
        exact ⟨rfl, rfl⟩
      · rw [List.cons_append, List.takeWhile_cons_of_neg hc, List.takeWhile_cons_of_neg hc,
          List.dropWhile_cons_of_neg hc, List.dropWhile_cons_of_neg hc]
        exact ⟨rfl, rfl⟩

theorem skip_append {cs : List Char} (ys : List Char) (h : skip cs ≠ []) :
    skip (cs ++ ys) = skip cs ++ ys := (dropWhile_append ys h).2

theorem scanString_append {cs rest : List Char} {us : List Nat} (ys : List Char)
    (h : scanString cs = some (us, rest)) : scanString (cs ++ ys) = some (us, rest ++ ys) := by
  induction hn : cs.length using Nat.strongRecOn generalizing cs us with
  | _ n ih =>
      subst hn
      -- What is read behind the first character is a shorter text.
      have hmap {u : Nat} {cs' : List Char} (hlt : cs'.length < cs.length)
          (h : (scanString cs').map (fun r => (u :: r.1, r.2)) = some (us, rest)) :
          (scanString (cs' ++ ys)).map (fun r => (u :: r.1, r.2)) = some (us, rest ++ ys) := by
        obtain ⟨r, hr, heq⟩ := Option.map_eq_some_iff.mp h
        obtain ⟨us', rest'⟩ := r
        cases heq
        rw [ih _ hlt hr rfl]
        rfl
      cases cs with
      | nil => cases h
      | cons c cs =>
          rw [scanString.eq_def] at h
          rw [List.cons_append, scanString.eq_def]
          dsimp only at h ⊢
          split at h
          next hquote =>
            cases h
            rw [if_pos hquote]
          next hquote =>
          rw [if_neg hquote]
          split at h
          next hescape =>
            rw [if_pos hescape]
            cases cs with
            | nil => cases h
            | cons e cs =>
                dsimp only [List.cons_append] at h ⊢
                split at h
                next hunit =>
                  rw [if_pos hunit]
                  obtain _ | ⟨h₁, _ | ⟨h₂, _ | ⟨h₃, _ | ⟨h₄, cs⟩⟩⟩⟩ := cs
                  · cases h
                  · cases h
                  · cases h
                  · cases h
                  · dsimp only [List.cons_append] at h ⊢
                    cases hu : readUnit h₁ h₂ h₃ h₄ with
                    | none =>
                        rw [hu] at h
                        cases h
                    | some u =>
                        rw [hu] at h
                        exact hmap (by simp only [List.length_cons]; omega) h
                next hunit =>
                  rw [if_neg hunit]
                  cases hu : readEscape e with
                  | none =>
                      rw [hu] at h
                      cases h
                  | some u =>
                      rw [hu] at h
                      exact hmap (by simp only [List.length_cons]; omega) h
          next hescape =>
            rw [if_neg hescape]
            split at h
            next => cases h
            next hcontrol =>
              rw [if_neg hcontrol]
              exact hmap (Nat.lt_succ_self _) h

theorem readString_append {cs rest : List Char} {s : String} (ys : List Char)
    (h : readString cs = some (s, rest)) : readString (cs ++ ys) = some (s, rest ++ ys) := by
  rw [readString] at h ⊢
  cases hscan : scanString cs with
  | none =>
      rw [hscan] at h
      cases h
  | some r =>
      obtain ⟨us, rest'⟩ := r
      rw [hscan] at h
      rw [scanString_append ys hscan]
      obtain ⟨text, htext, heq⟩ := Option.map_eq_some_iff.mp h
      cases heq
      dsimp only
      rw [htext]
      rfl

/-! ## Numbers and words -/

theorem readDigits_append {cs digits rest : List Char} (ys : List Char)
    (h : readDigits cs = some (digits, rest)) (hrest : rest ≠ []) :
    readDigits (cs ++ ys) = some (digits, rest ++ ys) := by
  cases cs with
  | nil => cases h
  | cons c cs =>
      have hhead : (c :: cs ++ ys).head? = (c :: cs).head? := rfl
      rw [readDigits] at h
      rw [readDigits, hhead]
      split at h
      next hzero =>
        cases h
        rw [if_pos hzero]
        rfl
      next hzero =>
      rw [if_neg hzero]
      split at h
      next => cases h
      next hne =>
        obtain ⟨rfl, rfl⟩ := Prod.mk.inj (Option.some.inj h)
        obtain ⟨htake, hdrop⟩ := dropWhile_append ys hrest
        rw [htake, hdrop, if_neg hne]

theorem readFraction_append {cs : List Char} (ys : List Char) (hne : (readFraction cs).2 ≠ [])
    (hdot : (readFraction cs).2.head? ≠ some '.') :
    readFraction (cs ++ ys) = ((readFraction cs).1, (readFraction cs).2 ++ ys) := by
  cases cs with
  | nil => exact absurd rfl hne
  | cons c cs =>
      by_cases hc : c = '.'
      · subst hc
        rw [readFraction] at hne hdot ⊢
        split at hne
        next hempty =>
          rw [if_pos hempty] at hdot
          exact absurd rfl hdot
        next hdigits =>
          obtain ⟨htake, hdrop⟩ := dropWhile_append ys hne
          rw [List.cons_append, readFraction, htake, hdrop, if_neg hdigits, if_neg hdigits]
      · have hplain (rest : List Char) : readFraction (c :: rest) = ([], c :: rest) := by
          rw [readFraction]
          rintro _ heq
          exact hc (List.cons.inj heq).1
        rw [List.cons_append, hplain, hplain]
        rfl

theorem readSign_append {cs : List Char} (ys : List Char) (h : cs ≠ []) :
    readSign (cs ++ ys) = ((readSign cs).1, (readSign cs).2 ++ ys) := by
  cases cs with
  | nil => exact absurd rfl h
  | cons c cs =>
      rw [List.cons_append]
      unfold readSign
      split
      next heq =>
        obtain ⟨rfl, rfl⟩ := List.cons.inj heq
        rfl
      next heq =>
        obtain ⟨rfl, rfl⟩ := List.cons.inj heq
        rfl
      next hplus hminus =>
        split
        next heq =>
          obtain ⟨rfl, rfl⟩ := List.cons.inj heq
          exact (hplus _ rfl).elim
        next heq =>
          obtain ⟨rfl, rfl⟩ := List.cons.inj heq
          exact (hminus _ rfl).elim
        next => rfl

theorem readExponent_append {cs : List Char} (ys : List Char) (h : Ended (readExponent cs).2) :
    readExponent (cs ++ ys) = ((readExponent cs).1, (readExponent cs).2 ++ ys) := by
  cases cs with
  | nil => exact absurd rfl h.ne_nil
  | cons c cs =>
      rw [readExponent] at h ⊢
      rw [List.cons_append, readExponent]
      split at h
      next hc =>
        rw [if_pos hc, if_pos hc]
        dsimp only at h ⊢
        split at h
        next => exact absurd hc (not_or_intro h.head_ne.2.1 h.head_ne.2.2)
        next hdigits =>
          have hcs : cs ≠ [] := by
            rintro rfl
            exact hdigits rfl
          obtain ⟨htake, hdrop⟩ := dropWhile_append ys h.ne_nil
          rw [readSign_append ys hcs, if_neg hdigits]
          dsimp only
          rw [htake, hdrop, if_neg hdigits]
      next hc =>
        rw [if_neg hc, if_neg hc]
        rfl

/-- The rest in front of an exponent is none that a fraction could have gone on with. -/
theorem head_ne_dot_of_ended {cs : List Char} (h : Ended (readExponent cs).2) :
    cs ≠ [] ∧ cs.head? ≠ some '.' := by
  cases cs with
  | nil => exact absurd rfl h.ne_nil
  | cons c cs =>
      refine ⟨List.cons_ne_nil c cs, ?_⟩
      intro hdot
      obtain rfl : c = '.' := Option.some.inj hdot
      exact h.head_ne.1 rfl

theorem readNumber_append {cs rest : List Char} {v : Json} (ys : List Char)
    (h : readNumber env cs = some (v, rest)) (hrest : Ended rest) :
    readNumber env (cs ++ ys) = some (v, rest ++ ys) := by
  have hne : cs ≠ [] := by
    rintro rfl
    cases h
  have hhead : (cs ++ ys).head? = cs.head? := List.head?_append_of_ne_nil _ hne
  have htail : (if decide (cs.head? = some '-') = true then (cs ++ ys).tail else cs ++ ys) =
      (if decide (cs.head? = some '-') = true then cs.tail else cs) ++ ys := by
    rw [List.tail_append_of_ne_nil hne]
    split <;> rfl
  rw [readNumber] at h ⊢
  dsimp only at h ⊢
  rw [hhead, htail]
  cases hdigits : readDigits (if decide (cs.head? = some '-') = true then cs.tail else cs) with
  | none =>
      rw [hdigits] at h
      cases h
  | some r =>
      obtain ⟨digits, rest₁⟩ := r
      rw [hdigits] at h
      dsimp only at h
      have hended : Ended (readExponent (readFraction rest₁).2).2 := by
        split at h
        next =>
          cases h
          exact hrest
        next =>
          cases h
          exact hrest
      obtain ⟨hne₂, hdot₂⟩ := head_ne_dot_of_ended hended
      have hne₁ : rest₁ ≠ [] := by
        rintro rfl
        exact hne₂ rfl
      rw [readDigits_append ys hdigits hne₁]
      dsimp only
      rw [readFraction_append ys hne₂ hdot₂]
      dsimp only
      rw [readExponent_append ys hended]
      dsimp only
      split at h
      next hplain =>
        cases h
        rw [if_pos hplain]
      next hplain =>
        cases h
        rw [if_neg hplain]

theorem readNumber_valueWord (env : Decoders) (ys : List Char) :
    ∀ w ∈ valueWords, readNumber env (w.1 ++ ys) = none ∧
      readWord (w.1 ++ ys) = some (w.2, ys) := by
  simp only [valueWords, List.forall_mem_cons]
  exact ⟨⟨rfl, rfl⟩, ⟨rfl, rfl⟩, ⟨rfl, rfl⟩, ⟨rfl, rfl⟩, ⟨rfl, rfl⟩, ⟨rfl, rfl⟩,
    List.forall_mem_nil _⟩

theorem readWord_eq {cs rest : List Char} {v : Json} (h : readWord cs = some (v, rest)) :
    ∃ w ∈ valueWords, cs = w.1 ++ rest ∧ v = w.2 := by
  rw [readWord] at h
  obtain ⟨w, hw, heq⟩ := Option.map_eq_some_iff.mp h
  have hprefix := List.find?_some hw
  obtain ⟨tail, htail⟩ := List.isPrefixOf_iff_prefix.mp hprefix
  cases heq
  refine ⟨w, List.mem_of_find?_eq_some hw, ?_, rfl⟩
  rw [← htail, List.drop_left]

/-! ## Values -/

/-- A value that starts with such a character ends by its own last character. -/
def Opened (cs : List Char) : Prop :=
  ∃ c tail, cs = c :: tail ∧ (c = '"' ∨ c = '[' ∨ c = '{')

theorem readValue_nil (n : Nat) : readValue env n [] = none := by
  cases n <;> rfl

theorem readItems_nil (n : Nat) : readItems env n [] = none := by
  cases n with
  | zero => rfl
  | succ n => rw [readItems, readValue_nil]

theorem readMembers_nil (n : Nat) : readMembers env n [] = none := by
  cases n <;> rfl

/-- The readers on some depth of the recursion do not look behind what they have read, and a
    larger depth changes nothing. -/
structure Settled (env : Decoders) (n : Nat) : Prop where
  value : ∀ {cs v rest}, readValue env n cs = some (v, rest) → Ended rest ∨ Opened cs →
    ∀ {m}, n ≤ m → ∀ ys, readValue env m (cs ++ ys) = some (v, rest ++ ys)
  items : ∀ {cs vs rest}, readItems env n cs = some (vs, rest) →
    ∀ {m}, n ≤ m → ∀ ys, readItems env m (cs ++ ys) = some (vs, rest ++ ys)
  members : ∀ {cs ms rest}, readMembers env n cs = some (ms, rest) →
    ∀ {m}, n ≤ m → ∀ ys, readMembers env m (cs ++ ys) = some (ms, rest ++ ys)

theorem readItems_append {n m : Nat} (ih : Settled env n) {cs rest : List Char} {vs : List Json}
    (h : readItems env (n + 1) cs = some (vs, rest)) (hm : n ≤ m) (ys : List Char) :
    readItems env (m + 1) (cs ++ ys) = some (vs, rest ++ ys) := by
  rw [readItems] at h ⊢
  cases hvalue : readValue env n cs with
  | none =>
      rw [hvalue] at h
      cases h
  | some r =>
      obtain ⟨v, rest₁⟩ := r
      rw [hvalue] at h
      dsimp only at h
      split at h
      next rest₂ hskip =>
        have hended := ended_of_skip hskip rfl
        obtain ⟨r, hr, heq⟩ := Option.map_eq_some_iff.mp h
        obtain ⟨vs', rest₃⟩ := r
        cases heq
        have hne : skip rest₂ ≠ [] := by
          intro hnil
          rw [hnil, readItems_nil] at hr
          cases hr
        rw [ih.value hvalue (.inl hended) hm ys]
        dsimp only
        rw [skip_append ys (hskip ▸ List.cons_ne_nil _ _), hskip]
        show (readItems env m (skip (rest₂ ++ ys))).map _ = _
        rw [skip_append ys hne, ih.items hr hm ys]
        rfl
      next rest₂ hskip =>
        have hended := ended_of_skip hskip rfl
        cases h
        rw [ih.value hvalue (.inl hended) hm ys]
        dsimp only
        rw [skip_append ys (hskip ▸ List.cons_ne_nil _ _), hskip]
        rfl
      next => cases h

theorem readMembers_append {n m : Nat} (ih : Settled env n) {cs rest : List Char}
    {ms : List (String × Json)} (h : readMembers env (n + 1) cs = some (ms, rest)) (hm : n ≤ m)
    (ys : List Char) : readMembers env (m + 1) (cs ++ ys) = some (ms, rest ++ ys) := by
  cases cs with
  | nil => cases h
  | cons c cs =>
      rw [readMembers] at h
      rw [List.cons_append, readMembers]
      split at h
      next hquote =>
        rw [if_pos hquote]
        cases hkey : readString cs with
        | none =>
            rw [hkey] at h
            cases h
        | some r =>
            obtain ⟨k, rest₁⟩ := r
            rw [hkey] at h
            rw [readString_append ys hkey]
            dsimp only at h ⊢
            split at h
            next rest₂ hcolon =>
              rw [skip_append ys (hcolon ▸ List.cons_ne_nil _ _), hcolon]
              cases hvalue : readValue env n (skip rest₂) with
              | none =>
                  rw [hvalue] at h
                  cases h
              | some r =>
                  obtain ⟨v, rest₃⟩ := r
                  have hne : skip rest₂ ≠ [] := by
                    intro hnil
                    rw [hnil, readValue_nil] at hvalue
                    cases hvalue
                  rw [hvalue] at h
                  rw [List.cons_append]
                  dsimp only at h
                  split
                  next rest₂' heq =>
                    obtain rfl := (List.cons.inj heq).2
                    rw [skip_append ys hne]
                    split at h
                    next rest₄ hskip =>
                      have hended := ended_of_skip hskip rfl
                      obtain ⟨r, hr, heq⟩ := Option.map_eq_some_iff.mp h
                      obtain ⟨ms', rest₅⟩ := r
                      cases heq
                      have hne' : skip rest₄ ≠ [] := by
                        intro hnil
                        rw [hnil, readMembers_nil] at hr
                        cases hr
                      rw [ih.value hvalue (.inl hended) hm ys]
                      dsimp only
                      rw [skip_append ys (hskip ▸ List.cons_ne_nil _ _), hskip]
                      show (readMembers env m (skip (rest₄ ++ ys))).map _ = _
                      rw [skip_append ys hne', ih.members hr hm ys]
                      rfl
                    next rest₄ hskip =>
                      have hended := ended_of_skip hskip rfl
                      cases h
                      rw [ih.value hvalue (.inl hended) hm ys]
                      dsimp only
                      rw [skip_append ys (hskip ▸ List.cons_ne_nil _ _), hskip]
                      rfl
                    next => cases h
                  next hno => exact absurd rfl (hno _)
            next => cases h
      next => cases h

/-- What opens an array or an object: its reader, behind the opening character. -/
theorem opened_append {α : Type} (make : α → Json) {n m : Nat} {closing : Char}
    {cs rest : List Char} {v empty : Json}
    {read : Nat → List Char → Option (α × List Char)} (hnil : read n [] = none)
    (hread : ∀ {cs a rest}, read n cs = some (a, rest) → ∀ ys,
      read m (cs ++ ys) = some (a, rest ++ ys))
    (h : (if (skip cs).head? = some closing then some (empty, (skip cs).tail)
      else (read n (skip cs)).map fun r => (make r.1, r.2)) = some (v, rest)) (ys : List Char) :
    (if (skip (cs ++ ys)).head? = some closing then some (empty, (skip (cs ++ ys)).tail)
      else (read m (skip (cs ++ ys))).map fun r => (make r.1, r.2)) = some (v, rest ++ ys) := by
  have hne : skip cs ≠ [] := by
    intro hempty
    rw [hempty, hnil] at h
    cases h
  rw [skip_append ys hne, List.head?_append_of_ne_nil _ hne]
  split at h
  next hclosing =>
    cases h
    rw [if_pos hclosing, List.tail_append_of_ne_nil hne]
  next hclosing =>
    obtain ⟨r, hr, heq⟩ := Option.map_eq_some_iff.mp h
    obtain ⟨a, rest'⟩ := r
    cases heq
    rw [if_neg hclosing, hread hr ys]
    rfl

theorem readValue_succ_append {n m : Nat} (ih : Settled env n) {cs rest : List Char} {v : Json}
    (h : readValue env (n + 1) cs = some (v, rest)) (hend : Ended rest ∨ Opened cs) (hm : n ≤ m)
    (ys : List Char) : readValue env (m + 1) (cs ++ ys) = some (v, rest ++ ys) := by
  cases cs with
  | nil => cases h
  | cons c cs =>
      by_cases hquote : c = '"'
      · subst hquote
        rw [readValue, if_pos rfl] at h
        obtain ⟨r, hr, heq⟩ := Option.map_eq_some_iff.mp h
        obtain ⟨s, rest'⟩ := r
        cases heq
        rw [List.cons_append, readValue, if_pos rfl, readString_append ys hr]
        rfl
      by_cases hbracket : c = '['
      · subst hbracket
        rw [readValue, if_neg hquote, if_pos rfl] at h
        rw [List.cons_append, readValue, if_neg hquote, if_pos rfl]
        exact opened_append .array (readItems_nil n) (fun hr ys => ih.items hr hm ys) h ys
      by_cases hbrace : c = '{'
      · subst hbrace
        rw [readValue, if_neg hquote, if_neg hbracket, if_pos rfl] at h
        rw [List.cons_append, readValue, if_neg hquote, if_neg hbracket, if_pos rfl]
        exact opened_append (fun ms => .object (Python.Dict.ofPairs ms).entries) (readMembers_nil n)
          (fun hr ys => ih.members hr hm ys) h ys
      have hended : Ended rest := by
        refine hend.resolve_right ?_
        rintro ⟨d, tail, heq, hd⟩
        obtain ⟨rfl, -⟩ := List.cons.inj heq
        rcases hd with hd | hd | hd
        · exact hquote hd
        · exact hbracket hd
        · exact hbrace hd
      rw [readValue_atom hquote hbracket hbrace] at h
      rw [List.cons_append, readValue_atom hquote hbracket hbrace, ← List.cons_append]
      cases hnumber : readNumber env (c :: cs) with
      | some r =>
          rw [hnumber] at h
          cases h
          rw [readNumber_append ys hnumber hended]
      | none =>
          rw [hnumber] at h
          obtain ⟨w, hw, hcs, rfl⟩ := readWord_eq h
          obtain ⟨hnone, hword⟩ := readNumber_valueWord env (rest ++ ys) w hw
          rw [hcs, List.append_assoc, hnone]
          exact hword

theorem settled (n : Nat) : Settled env n := by
  induction n with
  | zero => exact ⟨nofun, nofun, nofun⟩
  | succ n ih =>
      refine ⟨?_, ?_, ?_⟩
      · intro cs v rest h hend m hm ys
        obtain ⟨m, rfl⟩ := Nat.exists_eq_succ_of_ne_zero (by omega : m ≠ 0)
        exact readValue_succ_append ih h hend (by omega) ys
      · intro cs vs rest h m hm ys
        obtain ⟨m, rfl⟩ := Nat.exists_eq_succ_of_ne_zero (by omega : m ≠ 0)
        exact readItems_append ih h (by omega) ys
      · intro cs ms rest h m hm ys
        obtain ⟨m, rfl⟩ := Nat.exists_eq_succ_of_ne_zero (by omega : m ≠ 0)
        exact readMembers_append ih h (by omega) ys

/-- **A value that has been read does not depend on what stands behind it.** -/
theorem readValue_append {n m : Nat} {cs rest : List Char} {v : Json}
    (h : readValue env n cs = some (v, rest)) (hend : Ended rest ∨ Opened cs) (hm : n ≤ m)
    (ys : List Char) : readValue env m (cs ++ ys) = some (v, rest ++ ys) :=
  (settled n).value h hend hm ys

/-! ## Texts that break off -/

/-- A text that breaks off before the end of its value is refused, on every depth. -/
theorem readValue_beginning {v : Json} (h : Exact env v) (hopened : Opened (print v))
    {front back : List Char} (htext : print v = front ++ back) (hfront : front ≠ [])
    (hback : back ≠ []) (n : Nat) : readValue env n front = none := by
  cases hread : readValue env n front with
  | none => rfl
  | some r =>
      obtain ⟨w, rest⟩ := r
      have hopened' : Opened front := by
        obtain ⟨c, tail, heq, hc⟩ := hopened
        obtain ⟨d, front, rfl⟩ := List.exists_cons_of_ne_nil hfront
        rw [htext, List.cons_append] at heq
        obtain ⟨rfl, -⟩ := List.cons.inj heq
        exact ⟨d, front, rfl, hc⟩
      -- What is read from the beginning would be read from the whole text too.
      have hfront' := readValue_append hread (.inr hopened')
        (Nat.le_max_left n (2 * (front ++ back).length)) back
      have hwhole :=
        reads_exact escapes_escapeChar h (max n (2 * (front ++ back).length)) [] Follows.nil
        (by rw [printWith_escapeChar, htext]; exact Nat.le_max_right _ _)
      rw [printWith_escapeChar, List.append_nil, htext, hfront'] at hwhole
      have hrest : rest ++ back = [] := congrArg (fun r => r.2) (Option.some.inj hwhole)
      exact absurd (List.append_eq_nil_iff.mp hrest).2 hback

/-- Blanks behind a value that ends by its own last character. -/
theorem readText_blanks {v : Json} (h : Exact env v) (hopened : Opened (print v))
    {blanks : List Char} (hblanks : ∀ c ∈ blanks, isBlank c = true) :
    readText env (print v ++ blanks) = some v := by
  have hread := reads_exact escapes_escapeChar h (2 * (print v).length) [] Follows.nil
    (by rw [printWith_escapeChar])
  rw [printWith_escapeChar, List.append_nil] at hread
  have hwhole := readValue_append hread (.inr hopened)
    (m := 2 * (print v ++ blanks).length + 2) (by rw [List.length_append]; omega) blanks
  have hskip := (starts_printWith escapeChar h).skip blanks
  rw [printWith_escapeChar] at hskip
  have hrest : skip blanks = [] := List.dropWhile_eq_nil_iff.mpr hblanks
  rw [readText, hskip, hwhole]
  dsimp only
  rw [List.nil_append, hrest, if_pos rfl]

theorem loads_eq {bytes : List UInt8} {text : List Char} (h : decodeText env bytes = some text) :
    loads env bytes = readText env text := by
  rw [loads, h]
  rfl

theorem opened_print_object (members : List (String × Json)) : Opened (print (.object members)) :=
  ⟨'{', _, rfl, .inr (.inr rfl)⟩

/-- **No proper beginning of the text of an object is a JSON text.** -/
theorem readText_beginning {members : List (String × Json)} (h : Exact env (.object members))
    {front back : List Char} (htext : print (.object members) = front ++ back)
    (hback : back ≠ []) : readText env front = none := by
  cases front with
  | nil => rfl
  | cons c front =>
      obtain rfl : '{' = c := (List.cons.inj htext).1
      rw [readText, skip_cons rfl,
        readValue_beginning h (opened_print_object members) htext (List.cons_ne_nil _ _) hback]

end Json
end HermesPlatform
