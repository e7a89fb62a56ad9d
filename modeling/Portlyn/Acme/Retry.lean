import Portlyn.Acme.Deletion

/-! # Retries (`internal/acme/retry.go`)

What a call of `SyncCertificate` has stored when it ends, whatever its statements are answered. -/
namespace Portlyn.Acme
open Go Lib Lib.Interleave
set_option autoImplicit false

/-! ## Delays -/

section
variable (t id : ℕ) (item : Certificate)

def Served (r : Certificate × Except GoString Unit) : Prop := r.2.isOk = true ∧ r.1.status ≠ .failed

/-- The errors that leave the status as it is: of the domain, of the row that was to be saved, and
of the retry state. -/
def Unreported : CertEntry → Prop
  | ⟨_, .domainByID _, .error _⟩ => item.status ≠ .failed
  | ⟨_, .update _ row, .error _⟩ => row.status ≠ .failed
  | ⟨_, .updateRetryState .., false⟩ => True
  | _ => False

/-- What is known before the retry state is stored. -/
def Kept (own : List CertEntry) (r : Certificate × Except GoString Unit) : Prop :=
  r.1.failureCount = item.failureCount ∧ (¬ Served r → (r.1.status = .failed ↔ ∀ e ∈ own, ¬ Unreported item e))

end

variable {t id : ℕ} {item row : Certificate} {own : List CertEntry}

variable {env : CertEnv}

variable [UnicodeTables]

/-- A listing of what is due by a reading of the clock has given the certificate. -/
def Listed (own : List CertEntry) (id : ℕ) : Prop :=
  ∃ t now rows item, (⟨t, .now, now⟩ : CertEntry) ∈ own ∧ (id, item) ∈ rows ∧
    ((∃ limit, (⟨t, .listPending now limit, some rows⟩ : CertEntry) ∈ own) ∨
      ∃ before, (⟨t, .listExpiringBefore before now, some rows⟩ : CertEntry) ∈ own)

omit [UnicodeTables] in
theorem Listed.mono {own' : List CertEntry} (h : Listed own id) (hmore : ∀ e ∈ own, e ∈ own') : Listed own' id := by
  obtain ⟨t, now, rows, item, hnow, hitem, ⟨limit, hlist⟩ | ⟨before, hlist⟩⟩ := h
  · exact ⟨t, now, rows, item, hmore _ hnow, hitem, Or.inl ⟨limit, hmore _ hlist⟩⟩
  · exact ⟨t, now, rows, item, hmore _ hnow, hitem, Or.inr ⟨before, hmore _ hlist⟩⟩

end Portlyn.Acme
