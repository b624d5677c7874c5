/-!
# Texts as octets

A payload is a list of octets. A text becomes octets by its UTF-8 form, and octets become a text
again only when they are the UTF-8 form of one: no surrogates, no overlong forms.

Main statement: `ofOctets?_octets`.
-/

namespace Blackboard.Text

def octets (s : String) : List UInt8 := s.toByteArray.data.toList

def ofOctets? (bytes : List UInt8) : Option String := String.fromUTF8? ⟨bytes.toArray⟩

@[simp] theorem ofOctets?_octets (s : String) : ofOctets? (octets s) = some s := by
  have h : (⟨s.toByteArray.data.toList.toArray⟩ : ByteArray) = s.toByteArray := by simp
  rw [ofOctets?, octets, h, String.fromUTF8?, dif_pos s.isValidUTF8]
  rfl

/-- Lower case for the octets of the ASCII capitals; every other octet stays. -/
def foldOctet (b : UInt8) : UInt8 := if 0x41 ≤ b && b ≤ 0x5a then b + 0x20 else b

/-- The characters of a text with the ASCII capitals in lower case. -/
def foldCase (s : String) : List Char := s.toList.map Char.toLower

def eqIgnoringCase (a b : String) : Bool := foldCase a == foldCase b

end Blackboard.Text
