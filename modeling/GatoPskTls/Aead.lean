import GatoPskTls.KeySchedule

/-!
# What is assumed of an AEAD

The AEAD comes from another crate. Its correctness enters the results about whole streams of
records as a hypothesis on the primitives of the suite.
-/
namespace GatoPskTls.Primitives

variable {cs : TlsCipherSuite}

/-- Every plaintext within the limits of the AEAD can be sealed, and opens to itself. -/
structure AeadCorrect (P : Primitives cs) : Prop where
  seals : ∀ key nonce aad plaintext, aad.length ≤ 2 ^ 36 → plaintext.length ≤ 2 ^ 36 →
    ∃ ciphertext, P.aeadSeal key nonce aad plaintext = some ciphertext
  opens : ∀ {key nonce aad plaintext ciphertext},
    P.aeadSeal key nonce aad plaintext = some ciphertext →
    P.aeadOpen key nonce aad ciphertext = some plaintext

theorem checksumming_aeadCorrect (cs : TlsCipherSuite) : (checksumming cs).AeadCorrect where
  seals := fun _ _ _ _ _ _ => ⟨_, rfl⟩
  opens := by
    intro key nonce aad plaintext ciphertext h
    cases h
    have hsize : ∀ tag : GenericArray cs.tagSize, (plaintext ++ tag.val).length - cs.tagSize =
        plaintext.length := fun tag => by simp [tag.property]
    have hlong : ∀ tag : GenericArray cs.tagSize, ¬(plaintext ++ tag.val).length < cs.tagSize :=
      fun tag => by simp [tag.property]
    simp only [checksumming, hsize, if_neg (hlong _), List.take_left, List.drop_left, if_true]

end GatoPskTls.Primitives
