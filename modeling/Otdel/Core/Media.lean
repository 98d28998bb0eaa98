import Otdel.Library.Text

/-!
# Accepted media types

The media type is decided by the content signature, never by the file name and
never by the declared content type.
-/

namespace Otdel

abbrev Bytes := List UInt8

def signaturePrefixLen : ℕ := 12

inductive MediaType where
  | pdf
  | png
  | jpeg
  deriving DecidableEq, Repr

namespace MediaType

def accepted : List MediaType := [pdf, png, jpeg]

def asStr : MediaType → String
  | pdf => "application/pdf"
  | png => "image/png"
  | jpeg => "image/jpeg"

def extension : MediaType → String
  | pdf => "pdf"
  | png => "png"
  | jpeg => "jpg"

/-- The part before the first `;`, trimmed, in lowercase. -/
def parse (value : Text) : Option MediaType :=
  let base := ((Text.trim ((value.splitOn ';').headD [])).map Text.toAsciiLowercase)
  if base = "application/pdf".toList ∨ base = "application/x-pdf".toList then some pdf
  else if base = "image/png".toList then some png
  else if base = "image/jpeg".toList ∨ base = "image/jpg".toList then some jpeg
  else none

def pdfSignature : Bytes := [0x25, 0x50, 0x44, 0x46, 0x2d]

def pngSignature : Bytes := [0x89, 0x50, 0x4e, 0x47, 0x0d, 0x0a, 0x1a, 0x0a]

def jpegSignature : Bytes := [0xff, 0xd8, 0xff]

def detect (head : Bytes) : Option MediaType :=
  if head.length < 4 then none
  else if pdfSignature.isPrefixOf head then some pdf
  else if pngSignature.isPrefixOf head then some png
  else if jpegSignature.isPrefixOf head then some jpeg
  else none

def acceptedList : String := ", ".intercalate (accepted.map asStr)

theorem isPrefixOf_append_of_length_le {sig head : Bytes} (rest : Bytes)
    (h : sig.length ≤ head.length) : sig.isPrefixOf (head ++ rest) = sig.isPrefixOf head := by
  rw [Bool.eq_iff_iff, List.isPrefixOf_iff_prefix, List.isPrefixOf_iff_prefix]
  constructor
  · intro hpre
    exact List.prefix_of_prefix_length_le hpre (List.prefix_append head rest) h
  · exact fun hpre ↦ hpre.trans (List.prefix_append head rest)

/-- The signature lies within the bytes that are held back. -/
theorem detect_append {head : Bytes} (rest : Bytes) (h : signaturePrefixLen ≤ head.length) :
    detect (head ++ rest) = detect head := by
  have hlen : 12 ≤ head.length := h
  have hshort : ¬ head.length < 4 := by omega
  have hlong : ¬ (head ++ rest).length < 4 := by
    rw [List.length_append]
    omega
  have hpdf : pdfSignature.length ≤ head.length := by
    simp only [pdfSignature, List.length_cons, List.length_nil]
    omega
  have hpng : pngSignature.length ≤ head.length := by
    simp only [pngSignature, List.length_cons, List.length_nil]
    omega
  have hjpeg : jpegSignature.length ≤ head.length := by
    simp only [jpegSignature, List.length_cons, List.length_nil]
    omega
  rw [detect, detect, if_neg hshort, if_neg hlong, isPrefixOf_append_of_length_le rest hpdf,
    isPrefixOf_append_of_length_le rest hpng, isPrefixOf_append_of_length_le rest hjpeg]

end MediaType

end Otdel
