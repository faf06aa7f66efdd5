import Registrar.Proofs.Layout.RoundTrip
import Registrar.Proofs.Ledger.Submission

/-!
What a commitment commits to. The bytes it is the hash of are the fields of a registration one after
another, each behind its length:

* `fields_eq_of_begins`: such bytes tell their fields from the left, whatever the fields contain;
* `eq_of_begins`: so no registration's bytes begin another's;
* `commitment_binds`: unless the hash collides on the two, a commitment is that of one registration
  only, and only this one uses it up.
-/

namespace Registrar

theorem Text.bytes_inj {s t : String} (same : bytes s = bytes t) : s = t :=
  String.toList_inj.1 (Utf8.encode_inj same)

namespace Registration

/-- Each text is shorter than its length in bytes can say. -/
def Fits (registration : Registration) : Prop :=
  ∀ s ∈ [registration.name, registration.fullName, registration.ownerAnyAddress,
    registration.spaceId], (Text.bytes s).length < 2 ^ 64

instance (registration : Registration) : Decidable registration.Fits :=
  inferInstanceAs (Decidable (∀ s ∈ _, (Text.bytes s).length < 2 ^ 64))

/-- The six values in bytes, in the order in which they are hashed. -/
def fields (registration : Registration) : List Bytes :=
  [Text.bytes registration.name, registration.account.bytes, registration.secret.bytes,
    Text.bytes registration.fullName, Text.bytes registration.ownerAnyAddress,
    Text.bytes registration.spaceId]

/-- The hash does not collide on the bytes of two registrations. -/
def CollisionFree (a b : Registration) : Prop :=
  Keccak.digest a.preimage = Keccak.digest b.preimage → a.preimage = b.preimage

theorem preimage_eq (registration : Registration) :
    registration.preimage = registration.fields.flatMap delimited := by
  simp [preimage, fields]

/-- A length is read before its field, so the field ends where it says. -/
theorem delimited_of_begins {field other rest more : Bytes} (short : field.length < 2 ^ 64)
    (short' : other.length < 2 ^ 64)
    (begins : delimited field ++ rest <+: delimited other ++ more) :
    field = other ∧ rest <+: more := by
  obtain ⟨left, joined⟩ := begins
  simp only [delimited, List.append_assoc] at joined
  obtain ⟨lengths, contents⟩ := List.append_inj joined (by simp)
  have long : field.length = other.length :=
    Bytes.bigEndian_inj (by simpa [Bytes.span] using short) (by simpa [Bytes.span] using short')
      lengths
  obtain ⟨same, remaining⟩ := List.append_inj contents long
  exact ⟨same, left, remaining⟩

/-- Fields behind their lengths are told apart from the left, one by one. -/
theorem fields_eq_of_begins {fields others : List Bytes} (many : fields.length = others.length)
    (short : ∀ field ∈ fields, field.length < 2 ^ 64)
    (short' : ∀ other ∈ others, other.length < 2 ^ 64)
    (begins : fields.flatMap delimited <+: others.flatMap delimited) : fields = others := by
  induction fields generalizing others with
  | nil => exact (List.length_eq_zero_iff.1 many.symm).symm
  | cons field fields ih =>
    cases others with
    | nil => cases many
    | cons other others =>
      simp only [List.mem_cons, forall_eq_or_imp] at short short'
      simp only [List.flatMap_cons] at begins
      obtain ⟨rfl, later⟩ := delimited_of_begins short.1 short'.1 begins
      rw [ih (Nat.succ.inj many) short.2 short'.2 later]

theorem Fits.short {registration : Registration} (fits : registration.Fits) :
    ∀ field ∈ registration.fields, field.length < 2 ^ 64 := by
  simp only [Fits, List.mem_cons, List.not_mem_nil, or_false, forall_eq_or_imp, forall_eq] at fits
  obtain ⟨name, full, owner, space⟩ := fits
  have account : registration.account.bytes.length < 2 ^ 64 := by
    rw [registration.account.size_eq]
    decide
  have secret : registration.secret.bytes.length < 2 ^ 64 := by
    rw [registration.secret.size_eq]
    decide
  simp only [fields, List.mem_cons, List.not_mem_nil, or_false, forall_eq_or_imp, forall_eq]
  exact ⟨name, account, secret, full, owner, space⟩

theorem fields_inj {a b : Registration} (same : a.fields = b.fields) : a = b := by
  simp only [fields, List.cons.injEq, and_true] at same
  obtain ⟨name, account, secret, full, owner, space⟩ := same
  cases a
  cases b
  simp only [mk.injEq]
  exact ⟨Text.bytes_inj name, Fixed.ext account, Fixed.ext secret, Text.bytes_inj full,
    Text.bytes_inj owner, Text.bytes_inj space⟩

/-- The bytes of a registration begin those of no other. -/
theorem eq_of_begins {a b : Registration} (fits : a.Fits) (fits' : b.Fits)
    (begins : a.preimage <+: b.preimage) : a = b := by
  rw [preimage_eq, preimage_eq] at begins
  exact fields_inj (fields_eq_of_begins rfl fits.short fits'.short begins)

/-- Without a collision a commitment tells the registration that it was made of. -/
theorem CollisionFree.eq_of_commitment {a b : Registration} (free : CollisionFree a b)
    (fits : a.Fits) (fits' : b.Fits) (same : a.commitment = b.commitment) : a = b := by
  have bytes : a.preimage = b.preimage := free (congrArg Fixed.bytes same)
  exact eq_of_begins fits fits' (bytes ▸ List.prefix_rfl)

/-- Two registrations with a differing value are hashed from bytes that differ, and neither bytes begin
the other's. Unless the hash collides on them, their commitments differ; and a registration that the
ledger accepts uses the commitment made of another up exactly if they are the same registration and
its name was free. -/
theorem commitment_binds {made revealed : Registration} (fits : made.Fits) (fits' : revealed.Fits) :
    (made ≠ revealed → made.preimage ≠ revealed.preimage ∧
      ¬ made.preimage <+: revealed.preimage ∧ ¬ revealed.preimage <+: made.preimage) ∧
    (CollisionFree made revealed →
      (made.commitment = revealed.commitment → made = revealed) ∧
      ∀ (ledger later : Ledger) sender nonce handle,
        ledger.register sender nonce revealed = .ok (handle, later) →
        ledger.commitments.contains made.commitment = true →
        (later.commitments.contains made.commitment = false ↔
          made = revealed ∧ ledger.name? made.fullName = none)) := by
  refine ⟨fun differ => ⟨fun same => ?_, fun begins => ?_, fun begins => ?_⟩,
    fun free => ⟨free.eq_of_commitment fits fits', ?_⟩⟩
  · exact differ (eq_of_begins fits fits' (same ▸ List.prefix_rfl))
  · exact differ (eq_of_begins fits fits' begins)
  · exact differ (eq_of_begins fits' fits begins).symm
  intro ledger later sender nonce handle accepted committed
  have after : later = ledger.after sender nonce (.register revealed) := by
    rcases ledger.submit_eq sender nonce (.register revealed) with ⟨-, taken⟩ | ⟨-, detail, refused⟩
    · cases accepted.symm.trans taken
      rfl
    · cases accepted.symm.trans refused
  rw [after, Ledger.commitment_after_register, committed]
  simp only [Bool.true_and, Bool.not_eq_false', Bool.and_eq_true, decide_eq_true_eq]
  constructor
  · rintro ⟨can, same⟩
    obtain rfl := free.eq_of_commitment fits fits' same
    exact ⟨rfl, (Ledger.canRegister_iff.1 can).2⟩
  · rintro ⟨rfl, unnamed⟩
    exact ⟨Ledger.canRegister_iff.2 ⟨committed, unnamed⟩, rfl⟩

/-- The text of one registration looks like two fields of the other with the length between them. -/
theorem commitment_binds_imitated :
    let made : Registration := ⟨"a", .fill 1, .fill 2, "a", "b", "c"⟩
    let revealed : Registration :=
      ⟨"a", .fill 1, .fill 2, "a\x00\x00\x00\x00\x00\x00\x00\x01b", "c", ""⟩
    let ledger := (Ledger.fresh 0).after (.fill 3) 0 (.commit made.commitment)
    (made.Fits ∧ revealed.Fits ∧ CollisionFree made revealed) ∧
      (made.preimage ≠ revealed.preimage ∧ ¬ made.preimage <+: revealed.preimage ∧
        ¬ revealed.preimage <+: made.preimage) ∧
      made.commitment ≠ revealed.commitment ∧
      (∃ handle later, ledger.register (.fill 3) 1 revealed = .ok (handle, later) ∧
        later.commitments.contains made.commitment = true) ∧
      ∃ handle later, ledger.register (.fill 3) 1 made = .ok (handle, later) ∧
        later.commitments.contains made.commitment = false := by
  intro made revealed ledger
  have fits : made.Fits := by decide +kernel
  have fits' : revealed.Fits := by decide +kernel
  have differ : made ≠ revealed := by decide
  have free : CollisionFree made revealed := by
    have apart : Keccak.digest made.preimage ≠ Keccak.digest revealed.preimage := by decide +kernel
    exact fun same => absurd same apart
  have committed : ledger.commitments.contains made.commitment = true := by
    simp [ledger, Ledger.commitment_after_commit]
  have next : ledger.minedNonce (.fill 3) = 1 := by
    have unused : (Ledger.fresh 0).minedNonce (.fill 3) = 0 := rfl
    simp [ledger, Ledger.minedNonce_after, Ledger.effective, unused]
  have accepted : ∀ registration, ledger.register (.fill 3) 1 registration =
      .ok (ledger.nextTx (.fill 3) 1, ledger.after (.fill 3) 1 (.register registration)) := by
    intro registration
    rcases ledger.submit_eq (.fill 3) 1 (.register registration) with ⟨-, taken⟩ | ⟨other, -⟩
    · exact taken
    · exact absurd next.symm other
  obtain ⟨bytes, bound⟩ := commitment_binds fits fits'
  obtain ⟨apart, kept⟩ := bound free
  obtain ⟨-, own⟩ := commitment_binds fits fits
  refine ⟨⟨fits, fits', free⟩, bytes differ, fun same => differ (apart same),
    ⟨_, _, accepted revealed, ?_⟩, ⟨_, _, accepted made, ?_⟩⟩
  · rw [← Bool.not_eq_false]
    exact fun used => differ ((kept _ _ _ _ _ (accepted revealed) committed).1 used).1
  · exact ((own fun _ => rfl).2 _ _ _ _ _ (accepted made) committed).2 ⟨rfl, rfl⟩

end Registration

end Registrar
