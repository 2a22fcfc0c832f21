import Aseman.Identity.Keys
import Aseman.Lib.Bytes
import Aseman.Lib.Text
import Aseman.Lib.UuidText

/-!
# Signed bytes

What a signature covers: a protocol and a context, each ended by a zero byte, then the fields, each after
its length. The bytes tell which structure, which context and which fields they are of.
-/

namespace Aseman

/-- A field after its length, a big-endian `u32` that stays at its maximum beyond it. -/
def lengthPrefixed (part : List UInt8) : List UInt8 :=
  bigEndian 4 (min part.length (2 ^ 32 - 1)) ++ part

theorem lengthPrefixed_append_inj {a b x y : List UInt8} (ha : a.length < 2 ^ 32)
    (hb : b.length < 2 ^ 32) (h : lengthPrefixed a ++ x = lengthPrefixed b ++ y) :
    a = b ∧ x = y := by
  simp only [lengthPrefixed, List.append_assoc] at h
  obtain ⟨hlength, hrest⟩ := List.append_inj h (by simp)
  have hlength := congrArg ofBigEndian hlength
  rw [ofBigEndian_bigEndian (by omega), ofBigEndian_bigEndian (by omega)] at hlength
  exact List.append_inj hrest (by omega)

/-- As many fields in a row are told apart. -/
theorem flatMap_lengthPrefixed_inj {ps qs : List (List UInt8)} (hlength : ps.length = qs.length)
    (hps : ∀ p ∈ ps, p.length < 2 ^ 32) (hqs : ∀ q ∈ qs, q.length < 2 ^ 32)
    (h : ps.flatMap lengthPrefixed = qs.flatMap lengthPrefixed) : ps = qs := by
  induction ps generalizing qs with
  | nil => exact (List.length_eq_zero_iff.mp hlength.symm).symm
  | cons p ps ih =>
    obtain ⟨q, qs, rfl⟩ := List.exists_of_length_succ qs hlength.symm
    rw [List.flatMap_cons, List.flatMap_cons] at h
    rw [List.forall_mem_cons] at hps hqs
    obtain ⟨rfl, hrest⟩ := lengthPrefixed_append_inj hps.1 hqs.1 h
    rw [ih (Nat.succ.inj hlength) hps.2 hqs.2 hrest]

/-- `i64::to_be_bytes`. -/
def i64Bytes (x : Int) : List UInt8 := bigEndian 8 (x % 2 ^ 64).toNat

theorem i64Bytes_inj {x y : Int} (hx : -2 ^ 63 ≤ x ∧ x < 2 ^ 63) (hy : -2 ^ 63 ≤ y ∧ y < 2 ^ 63)
    (h : i64Bytes x = i64Bytes y) : x = y := by
  have h := congrArg ofBigEndian h
  rw [i64Bytes, i64Bytes, ofBigEndian_bigEndian (by omega), ofBigEndian_bigEndian (by omega)] at h
  omega

namespace Identity

def SubjectKind.asStr : SubjectKind → String
  | .user => "user"
  | .creature => "creature"
  | .node => "node"
  | .service => "service"
  | .workload => "workload"
  | .modulePublisher => "module_publisher"

def SignatureContext.asStr : SignatureContext → String
  | .request => "request"
  | .challenge => "challenge"
  | .token => "token"
  | .descriptor => "descriptor"
  | .revocation => "revocation"
  | .introduction => "introduction"

/-- `Display for Subject`. -/
def subjectText (s : Subject) : String := SubjectKind.asStr s.kind ++ ":" ++ uuidText s.id

def IsI64 (x : Int) : Prop := -2 ^ 63 ≤ x ∧ x < 2 ^ 63

structure SignedFields where
  algorithm : String
  keyId : String
  keyEpoch : Fin (2 ^ 32)
  subject : Subject
  audience : String
  window : CredentialWindow
  nonce : Bytes
  requestId : String
  action : String
  resource : String
  bodyDigest : Vector UInt8 32

def SignedFields.parts (f : SignedFields) : List Bytes :=
  [utf8 f.algorithm, utf8 f.keyId, bigEndian 4 f.keyEpoch, utf8 (subjectText f.subject),
    utf8 f.audience, i64Bytes f.window.issuedAtMillis, i64Bytes f.window.notBeforeMillis,
    i64Bytes f.window.expiresAtMillis, f.nonce, utf8 f.requestId, utf8 f.action, utf8 f.resource,
    f.bodyDigest.toList]

def signatureProtocol : String := "aseman-signature-v1"

def signingInput (context : SignatureContext) (fields : SignedFields) : Bytes :=
  utf8 signatureProtocol ++ 0 :: (utf8 context.asStr ++ 0 :: fields.parts.flatMap lengthPrefixed)

def introductionProtocol : String := "aseman-introduction-v1"

def Introduction.parts (i : Introduction) : List Bytes :=
  [utf8 (subjectText i.subject), i.publicKey, bigEndian 4 i.epoch, i64Bytes i.notBeforeMillis,
    (i.expiresAtMillis.map i64Bytes).getD []]

def introductionBytes (introduction : Introduction) : Bytes :=
  utf8 introductionProtocol ++ 0 :: introduction.parts.flatMap lengthPrefixed

/-! ## Which values they are of -/

/-- The variable-length fields are shorter than `2 ^ 32` bytes, and the times are of `i64`. -/
structure SignedFields.Fits (f : SignedFields) : Prop where
  short : ∀ part ∈ [utf8 f.algorithm, utf8 f.keyId, utf8 f.audience, f.nonce, utf8 f.requestId,
    utf8 f.action, utf8 f.resource], part.length < 2 ^ 32
  issued : IsI64 f.window.issuedAtMillis
  notBefore : IsI64 f.window.notBeforeMillis
  expires : IsI64 f.window.expiresAtMillis

structure Introduction.Fits (i : Introduction) : Prop where
  short : i.publicKey.length < 2 ^ 32
  notBefore : IsI64 i.notBeforeMillis
  expires : ∀ x ∈ i.expiresAtMillis, IsI64 x

theorem subjectText_injective : Function.Injective subjectText := by
  intro s t h
  have hcolon : ∀ k : SubjectKind, ':' ∉ (SubjectKind.asStr k).toList := by intro k; cases k <;> decide
  obtain ⟨hkind, hid⟩ := Text.append_inj_of_notMem (hcolon s.kind) (hcolon t.kind) h
  have hkinds : ∀ k l, SubjectKind.asStr k = SubjectKind.asStr l → k = l := by
    intro k l
    cases k <;> cases l <;> decide
  cases s
  cases t
  rw [Subject.mk.injEq]
  exact ⟨hkinds _ _ hkind, uuidText_injective hid⟩

theorem length_subjectText (s : Subject) : (utf8 (subjectText s)).length < 2 ^ 32 := by
  have hkind : (SubjectKind.asStr s.kind).toList.length ≤ 16 := by cases s.kind <;> decide
  have hlength := length_utf8_le (subjectText s)
  simp only [subjectText, String.toList_append, List.length_append, length_uuidText] at hlength ⊢
  have hcolon : ":".toList.length = 1 := by decide
  omega

variable {f g : SignedFields} {i j : Introduction}

theorem SignedFields.Fits.parts (h : f.Fits) : ∀ p ∈ f.parts, p.length < 2 ^ 32 := by
  have hshort := h.short
  have hsubject := length_subjectText f.subject
  simp [SignedFields.parts, i64Bytes] at hshort hsubject ⊢
  omega

theorem Introduction.Fits.parts (h : i.Fits) : ∀ p ∈ i.parts, p.length < 2 ^ 32 := by
  have hshort := h.short
  have hsubject := length_subjectText i.subject
  cases hexpires : i.expiresAtMillis <;>
    simp [Introduction.parts, hexpires, i64Bytes] at hsubject hshort ⊢ <;> omega

theorem bigEndian_fin_inj {a b : Fin (2 ^ 32)} (h : bigEndian 4 a = bigEndian 4 b) : a = b := by
  have h := congrArg ofBigEndian h
  rw [ofBigEndian_bigEndian (by omega), ofBigEndian_bigEndian (by omega)] at h
  exact Fin.ext h

theorem SignedFields.parts_inj (hf : f.Fits) (hg : g.Fits) (h : f.parts = g.parts) : f = g := by
  simp only [SignedFields.parts, List.cons.injEq, and_true] at h
  obtain ⟨h₁, h₂, h₃, h₄, h₅, h₆, h₇, h₈, h₉, h₁₀, h₁₁, h₁₂, h₁₃⟩ := h
  obtain ⟨_, _, _, _, _, ⟨_, _, _⟩, _, _, _, _, _⟩ := f
  obtain ⟨_, _, _, _, _, ⟨_, _, _⟩, _, _, _, _, _⟩ := g
  simp only [SignedFields.mk.injEq, CredentialWindow.mk.injEq]
  exact ⟨utf8_injective h₁, utf8_injective h₂, bigEndian_fin_inj h₃,
    subjectText_injective (utf8_injective h₄), utf8_injective h₅,
    ⟨i64Bytes_inj hf.issued hg.issued h₆, i64Bytes_inj hf.notBefore hg.notBefore h₇,
      i64Bytes_inj hf.expires hg.expires h₈⟩,
    h₉, utf8_injective h₁₀, utf8_injective h₁₁, utf8_injective h₁₂, Vector.toList_inj.mp h₁₃⟩

theorem Introduction.parts_inj (hi : i.Fits) (hj : j.Fits) (h : i.parts = j.parts) : i = j := by
  simp only [Introduction.parts, List.cons.injEq, and_true] at h
  obtain ⟨hsubject, hkey, hepoch, hnotBefore, hexpires⟩ := h
  -- An absent expiry is the only one of no bytes.
  have hexpires : i.expiresAtMillis = j.expiresAtMillis := by
    have hlength := congrArg List.length hexpires
    cases hx : i.expiresAtMillis <;> cases hy : j.expiresAtMillis <;>
      simp [hx, hy, i64Bytes] at hlength hexpires ⊢
    exact i64Bytes_inj (hi.expires _ hx) (hj.expires _ hy) hexpires
  cases i
  cases j
  rw [Introduction.mk.injEq]
  exact ⟨subjectText_injective (utf8_injective hsubject), hkey, bigEndian_fin_inj hepoch,
    i64Bytes_inj hi.notBefore hj.notBefore hnotBefore, hexpires⟩

/-- Signed bytes are unambiguous, so a signature that is good for one byte string only is good for one
structure, one context and its fields only. -/
theorem signed_bytes_unambiguous :
    (∀ c d f g, SignedFields.Fits f → SignedFields.Fits g → signingInput c f = signingInput d g →
      c = d ∧ f = g) ∧
    (∀ i j, Introduction.Fits i → Introduction.Fits j → introductionBytes i = introductionBytes j →
      i = j) ∧
    ∀ c f i, signingInput c f ≠ introductionBytes i := by
  refine ⟨fun c d f g hf hg h => ?_, fun i j hi hj h => ?_, fun c f i h => ?_⟩
  · have hzero : ∀ c : SignatureContext, (0 : UInt8) ∉ utf8 c.asStr := by intro c; cases c <;> decide
    have hcontexts : ∀ c d : SignatureContext, c.asStr = d.asStr → c = d := by
      intro c d
      cases c <;> cases d <;> decide
    obtain ⟨hcontext, hparts⟩ := Text.cons_inj_of_notMem (hzero c) (hzero d)
      (List.cons.inj (List.append_cancel_left h)).2
    exact ⟨hcontexts c d (utf8_injective hcontext), SignedFields.parts_inj hf hg
      (flatMap_lengthPrefixed_inj rfl hf.parts hg.parts hparts)⟩
  · exact Introduction.parts_inj hi hj (flatMap_lengthPrefixed_inj rfl hi.parts hj.parts
      (List.cons.inj (List.append_cancel_left h)).2)
  · obtain ⟨hprotocol, -⟩ := Text.cons_inj_of_notMem (by decide) (by decide) h
    exact absurd hprotocol (by decide)

end Identity

end Aseman
