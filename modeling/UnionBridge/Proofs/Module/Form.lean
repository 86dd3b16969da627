import UnionBridge.Proofs.Module.Paths
import UnionBridge.Proofs.Module.Scan

/-! Lines in pieces: texts that are given, and between them names, quotations and lists of such. That a line consists of
tokens can be told from its pieces. -/
namespace UnionBridge

variable {n n' : Nat} {w : Bool}

/-! ### Pieces of a line -/

/-- A text that neither opens nor closes anything for good. -/
def Phrase (text : String) : Prop := ∀ n, ∃ w, Spot.scan ⟨n, false, false⟩ text.toList = some ⟨n, w, false⟩

theorem IsPath.scan {text : String} (h : IsPath text) (n : Nat) (w : Bool) (rest : List Char) :
    Spot.scan ⟨n, w, false⟩ (text.toList ++ rest) = Spot.scan ⟨n, true, false⟩ rest := by
  refine Spot.scan_word (String.toList_eq_nil_iff.not.mpr h.ne_empty) (fun c hc => ?_) n w rest
  simpa [Preamble.isWordChar, Lexer.isNamePart] using h.all c hc

theorem IsPath.quotable {text : String} (h : IsPath text) : Quotable text := by
  have hno : ∀ c ∈ Spot.disturbing, Lexer.isNamePart c = false ∧ c ≠ '.' := by
    simp [Spot.disturbing, Lexer.isNamePart]
  exact fun c hc => h.notMem (hno c hc)

theorem Spot.scan_inQuotes {text : String} (h : Quotable text) (n : Nat) (rest : List Char) :
    scan ⟨n, false, false⟩ ((inQuotes text).toList ++ rest) = scan ⟨n, true, false⟩ rest := by
  have htext : (inQuotes text).toList ++ rest = '"' :: (text.toList ++ '"' :: rest) := by simp [inQuotes]
  have hopen : next ⟨n, false, false⟩ '"' = some ⟨n, true, true⟩ := rfl
  have hclose : next ⟨n, true, true⟩ '"' = some ⟨n, true, false⟩ := rfl
  rw [htext, scan, hopen, Option.bind_some, scan_quoted h.notMem, scan, hclose, Option.bind_some]

/-- A part of a line: a text that is given in full, or one of which only this much is known. -/
inductive Piece
  | text (t : String) {cs : List Char} (h : t = String.ofList cs)
  | path {t : String} (h : IsPath t)
  /-- A text between quotation marks. -/
  | quotation {t : String} (h : Quotable t)
  | phrase {t : String} (h : Phrase t)

namespace Piece

variable {s s' : Spot} {p : Piece} {ps : List Piece}

def written : Piece → String
  | text t _ | @path t _ | @phrase t _ => t
  | @quotation t _ => inQuotes t

/-- The line that consists of these pieces. -/
def line : List Piece → String
  | [] => ""
  | p :: ps => ps.foldl (fun text q => text ++ q.written) p.written

/-- What is known behind a piece, from what is known of the piece alone. -/
def pass (s : Spot) : Piece → Option Spot
  | @text _ cs _ => s.scan cs
  | path _ => if s.quoting then none else some ⟨s.depth, true, false⟩
  | quotation _ | phrase _ => if s.quoting || s.tight then none else some ⟨s.depth, true, false⟩

/-- Whether the pieces lead from one number of open brackets to another. -/
def leads (n n' : Nat) (ps : List Piece) : Bool :=
  (ps.foldlM pass ⟨n, false, false⟩).any fun s => s.depth = n' && !s.quoting

theorem toList_foldl (text : String) (ps : List Piece) :
    (ps.foldl (fun text q => text ++ q.written) text).toList = text.toList ++ ps.flatMap fun q => q.written.toList := by
  induction ps generalizing text with
  | nil => simp
  | cons p ps ih => simp [ih]

theorem toList_line (ps : List Piece) : (line ps).toList = ps.flatMap fun q => q.written.toList := by
  cases ps with
  | nil => rfl
  | cons p ps => simp [line, toList_foldl]

theorem leads_iff : leads n n' ps = true ↔
    ∃ s, ps.foldlM pass ⟨n, false, false⟩ = some s ∧ s.depth = n' ∧ s.quoting = false := by
  rw [leads]
  cases ps.foldlM pass ⟨n, false, false⟩ <;> simp

/-- A piece that has to stand apart from the word before it. -/
theorem eq_of_pass_apart (h : (if s.quoting || s.tight then none else some ⟨s.depth, true, false⟩) = some s') :
    s = ⟨s.depth, false, false⟩ ∧ s' = ⟨s.depth, true, false⟩ := by
  obtain ⟨n, tight, quoting⟩ := s
  split_ifs at h with hbad
  obtain ⟨rfl, rfl⟩ : quoting = false ∧ tight = false := by simpa using hbad
  exact ⟨rfl, (Option.some.inj h).symm⟩

theorem scan_of_foldlM (h : ps.foldlM pass s = some s') :
    ∃ w, s.scan (line ps).toList = some ⟨s'.depth, w, s'.quoting⟩ := by
  rw [toList_line]
  induction ps generalizing s with
  | nil =>
    obtain rfl := Option.some.inj h
    exact ⟨s.tight, rfl⟩
  | cons p ps ih =>
    obtain ⟨s₁, hp, hrest⟩ := Option.bind_eq_some_iff.mp h
    obtain ⟨w, hscan⟩ := ih hrest
    rw [List.flatMap_cons]
    cases p with
    | @text t cs ht =>
      have hliteral : s.scan cs = some s₁ := hp
      exact ⟨w, by rw [written, ht, String.toList_ofList, Spot.scan_append, hliteral, Option.bind_some, hscan]⟩
    | path hpath =>
      obtain ⟨n, tight, quoting⟩ := s
      cases quoting with
      | true => cases hp
      | false =>
        obtain rfl := Option.some.inj hp
        exact ⟨w, by rw [written, hpath.scan, hscan]⟩
    | quotation hquotable =>
      obtain ⟨hs, rfl⟩ := eq_of_pass_apart hp
      exact ⟨w, by rw [hs, written, Spot.scan_inQuotes hquotable, hscan]⟩
    | phrase hphrase =>
      obtain ⟨hs, rfl⟩ := eq_of_pass_apart hp
      obtain ⟨tight, htight⟩ := hphrase s.depth
      obtain ⟨w', hloose⟩ := Spot.scan_loosen hscan tight
      exact ⟨w', by rw [hs, written, Spot.scan_append, htight, Option.bind_some, hloose]⟩

end Piece

theorem Lexical.of_pieces {text : String} (ps : List Piece) (htext : text = Piece.line ps)
    (hleads : Piece.leads n n' ps = true) : Lexical n text n' := by
  obtain ⟨_, hpass, hend⟩ := Piece.leads_iff.mp hleads
  obtain ⟨w', hscan⟩ := Piece.scan_of_foldlM hpass
  rw [hend.1, hend.2] at hscan
  exact .code (htext ▸ hscan)

theorem Phrase.of_pieces {text : String} (ps : List Piece) (htext : text = Piece.line ps)
    (hpass : ∀ n, ps.foldlM Piece.pass ⟨n, false, false⟩ = some ⟨n, w, false⟩) : Phrase text := by
  intro n
  obtain ⟨w', hscan⟩ := Piece.scan_of_foldlM (hpass n)
  exact ⟨w', htext ▸ hscan⟩

theorem phrase_commaList {items : List String} (h : ∀ item ∈ items, Phrase item) : Phrase (commaList items) := by
  induction items with
  | nil => exact .of_pieces [] rfl fun _ => rfl
  | cons first items ih =>
    have hfirst := h first List.mem_cons_self
    have hrest := ih fun item hitem => h item (List.mem_cons_of_mem _ hitem)
    cases items with
    | nil => rwa [commaList, String.intercalate_singleton]
    | cons next items =>
      exact .of_pieces [.phrase hfirst, .text ", " rfl, .phrase hrest] (by simp [commaList, Piece.line, Piece.written])
        fun _ => rfl

theorem Quotable.literal {text : String} {cs : List Char} (htext : text = String.ofList cs)
    (h : cs.all (· ∉ Spot.disturbing) = true) : Quotable text := by
  intro c hc hmem
  rw [htext, String.toList_ofList] at hmem
  simpa [hc] using List.all_eq_true.mp h c hmem

theorem quotable_intercalate {separator : String} {items : List String} (hs : Quotable separator)
    (h : ∀ item ∈ items, Quotable item) : Quotable (separator.intercalate items) :=
  fun c hc => notMem_intercalate (hs c hc) fun item hitem => h item hitem c hc

end UnionBridge
