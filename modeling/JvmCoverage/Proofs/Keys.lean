import JvmCoverage.Coverage.Report
import JvmCoverage.Proofs.Ordered
import Mathlib.Data.String.Basic

/-!
# Keys of classes in a report

A class is filed under its name, and another version of it under the name with the digest, which is
always sixteen digits long.  Such a key could be the name of yet another class, but that class comes
later in the order of identities, in which classes are filed.  So no class takes the place of
another (`CoverageReport.perm_ofClasses`).
-/

namespace JvmCoverage

/-! ## Hexadecimal text -/

namespace Text

/-- The value of a hexadecimal digit. -/
def digitValue (c : Char) : Nat :=
  if c.toNat < 'a'.toNat then c.toNat - '0'.toNat else c.toNat - 'a'.toNat + 10

/-- The value of hexadecimal digits. -/
def hexValue (digits : List Char) : Nat :=
  digits.foldl (fun value c => 16 * value + digitValue c) 0

theorem digitValue_digitChar :
  ∀ d < 16, digitValue d.digitChar = d
  := by
  decide

theorem hexValue_toDigits (n : Nat) :
  hexValue (Nat.toDigits 16 n) = n
  := by
  induction n using Nat.strong_induction_on with
  | h n ih =>
    rw [Nat.toDigits_eq_if (by decide)]
    split
    · rename_i hlt
      simp [hexValue, digitValue_digitChar n hlt]
    · have hdigit := digitValue_digitChar (n % 16) (Nat.mod_lt n (by decide))
      have hfront := ih (n / 16) (by omega)
      rw [hexValue] at hfront
      rw [hexValue, List.foldl_append, hfront, List.foldl_cons, List.foldl_nil, hdigit]
      omega

/-- The text tells the number. -/
theorem hexValue_hex (width n : Nat) :
  hexValue (hex width n).toList = n
  := by
  have hzeros : ∀ k, hexValue (List.replicate k '0') = 0 := by
    intro k
    induction k with
    | zero => rfl
    | succ k ih =>
      rw [hexValue] at ih
      rw [List.replicate_succ', hexValue, List.foldl_append, ih]
      rfl
  have hvalue := hexValue_toDigits n
  have hfront := hzeros (width - (Nat.toDigits 16 n).length)
  rw [hexValue] at hvalue hfront
  rw [hex, String.toList_ofList, hexValue, List.foldl_append, hfront, hvalue]

/-- A number that has no more digits than are asked for is written with just as many. -/
theorem length_hex {width n : Nat} (hwidth : 0 < width) (h : n < 16 ^ width) :
  (hex width n).toList.length = width
  := by
  have hle := (Nat.length_toDigits_le_iff (by decide) hwidth).mpr h
  rw [hex, String.toList_ofList, List.length_append, List.length_replicate]
  omega

end Text

/-! ## Identities -/

namespace ClassIdentity

variable {a b : ClassIdentity}

theorem eq_of_fields (hname : a.name = b.name) (hdigest : a.digest = b.digest) :
  a = b
  := by
  obtain ⟨name, digest⟩ := a
  obtain rfl := hname
  obtain rfl := hdigest
  rfl

/-- The digits of a digest. -/
theorem length_digits (identity : ClassIdentity) :
  (Text.hex 16 identity.digest.toNat).toList.length = 16
  := Text.length_hex (by decide) identity.digest.toNat_lt

/-- The text of an identity tells the identity. -/
theorem text_inj (h : a.text = b.text) :
  a = b
  := by
  have hlists := congrArg String.toList h
  simp only [text, String.toList_append] at hlists
  obtain ⟨hnames, hdigits⟩ := List.append_inj' hlists (by rw [length_digits, length_digits])
  have hdigest : a.digest.toNat = b.digest.toNat := by
    rw [← Text.hexValue_hex 16 a.digest.toNat, hdigits, Text.hexValue_hex]
  apply eq_of_fields _ (UInt64.toNat_inj.mp hdigest)
  apply String.toList_inj.mp (List.append_cancel_right hnames)

/-- The name of a class comes before the text of its identity. -/
theorem name_lt_text (identity : ClassIdentity) :
  identity.name < identity.text
  := by
  have htext : identity.text.toList
      = identity.name.toList ++ '@' :: (Text.hex 16 identity.digest.toNat).toList := by
    simp [text]
  rw [String.lt_iff_toList_lt, htext]
  conv_lhs => rw [← List.append_nil identity.name.toList]
  apply List.Lex.append_left _ (List.nil_lt_cons _ _)

theorem precedes_iff :
  a.precedes b ↔ a.name < b.name ∨ a.name = b.name ∧ a.digest < b.digest
  := by
  simp [precedes]

/-- Identities that come first have names that come first. -/
theorem name_le_of_precedes (h : a.precedes b) :
  a.name ≤ b.name
  := by
  rcases precedes_iff.mp h with hlt | ⟨heq, -⟩
  · apply le_of_lt hlt
  · apply le_of_eq heq

theorem isOrder_precedes :
  Ordered.IsOrder precedes
  where
    irrefl := by
      intro a
      rw [Bool.eq_false_iff, ne_eq, precedes_iff]
      rintro (hlt | ⟨-, hlt⟩)
      · apply lt_irrefl _ hlt
      · apply UInt64.lt_irrefl _ hlt
    trans := by
      intro a b c hab hbc
      rw [precedes_iff] at hab hbc ⊢
      rcases hab with hab | ⟨hab, hdab⟩ <;> rcases hbc with hbc | ⟨hbc, hdbc⟩
      · exact .inl (hab.trans hbc)
      · exact .inl (hbc ▸ hab)
      · exact .inl (hab ▸ hbc)
      · exact .inr ⟨hab.trans hbc, UInt64.lt_trans hdab hdbc⟩
    total := by
      intro a b hne hafter
      rw [Bool.eq_false_iff, ne_eq, precedes_iff] at hafter
      rw [precedes_iff]
      rcases lt_trichotomy a.name b.name with hlt | heq | hlt
      · exact absurd (.inl hlt) hafter
      · have hdigest : a.digest ≠ b.digest := fun hdigest => hne (eq_of_fields heq hdigest)
        rcases UInt64.lt_or_lt_of_ne hdigest with hlt | hlt
        · exact absurd (.inr ⟨heq, hlt⟩) hafter
        · exact .inr ⟨heq.symm, hlt⟩
      · exact .inl hlt

end ClassIdentity

/-! ## Reports -/

namespace CoverageReport

variable {classes : List (String × ClassCoverage)} {c : ClassCoverage}

/-- Whether every class is filed under its name or its text. -/
def Keyed (classes : List (String × ClassCoverage)) : Prop :=
  ∀ entry ∈ classes, entry.1 = entry.2.identity.name ∨ entry.1 = entry.2.identity.text

/-- No class is filed yet under the key for one that comes behind all others. -/
theorem lookup_keyFor (hkeyed : Keyed classes)
    (hlast : ∀ entry ∈ classes, entry.2.identity.precedes c.identity) :
  Ordered.lookup (keyFor classes c) classes = none
  := by
  rw [keyFor]
  split
  · by_contra htaken
    obtain ⟨other, hother⟩ := Option.ne_none_iff_exists'.mp htaken
    have hmem := Ordered.mem_of_lookup hother
    have hbefore := hlast _ hmem
    rcases hkeyed _ hmem with hname | htext
    · -- the text of a class comes behind all names so far
      have hlt := c.identity.name_lt_text
      rw [show c.identity.text = other.identity.name from hname] at hlt
      apply not_lt_of_ge (ClassIdentity.name_le_of_precedes hbefore) hlt
    · rw [ClassIdentity.text_inj htext, ClassIdentity.isOrder_precedes.irrefl] at hbefore
      cases hbefore
  · rename_i hfree
    simpa using hfree

theorem Keyed.add (h : Keyed classes) (c : ClassCoverage) :
  Keyed (add classes c)
  := by
  intro entry hentry
  rcases Ordered.mem_insert hentry with rfl | hentry
  · dsimp only
    rw [keyFor]
    split
    · exact .inr rfl
    · exact .inl rfl
  · apply h entry hentry

/-- Classes that come in the order of their identities are all filed. -/
theorem perm_foldl_add {new : List ClassCoverage} (hkeyed : Keyed classes)
    (hnew : new.Pairwise fun a b => a.identity.precedes b.identity)
    (hlast : ∀ entry ∈ classes, ∀ c ∈ new, entry.2.identity.precedes c.identity) :
  ((new.foldl add classes).map Prod.snd).Perm (classes.map Prod.snd ++ new)
  := by
  induction new generalizing classes with
  | nil => rw [List.foldl_nil, List.append_nil]
  | cons c new ih =>
    obtain ⟨hc, hnew⟩ := List.pairwise_cons.mp hnew
    have hperm : (add classes c).Perm ((keyFor classes c, c) :: classes) :=
      Ordered.perm_insert precedes c
        (lookup_keyFor hkeyed fun entry hentry => hlast entry hentry c List.mem_cons_self)
    have hlast' : ∀ entry ∈ add classes c, ∀ c' ∈ new,
        entry.2.identity.precedes c'.identity := by
      intro entry hentry c' hc'
      rcases Ordered.mem_insert hentry with rfl | hentry
      · apply hc c' hc'
      · apply hlast entry hentry c' (List.mem_cons_of_mem _ hc')
    have hfiled : ((add classes c).map Prod.snd ++ new).Perm (c :: classes.map Prod.snd ++ new) :=
      (hperm.map Prod.snd).append_right new
    apply ((ih (hkeyed.add c) hnew hlast').trans hfiled).trans List.perm_middle.symm

/-- A report on classes in the order of their identities has an entry for each of them. -/
theorem perm_ofClasses {classes : List ClassCoverage}
    (h : classes.Pairwise fun a b => a.identity.precedes b.identity) :
  ((ofClasses classes).classes.map Prod.snd).Perm classes
  := by
  apply perm_foldl_add _ h
  · simp
  · simp [Keyed]

end CoverageReport

end JvmCoverage
