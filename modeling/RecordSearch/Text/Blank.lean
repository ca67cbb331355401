/-! White space by the Unicode property `White_Space`, and text without it at either end. -/
namespace RecordSearch.Text

/-- The twenty-five code points with the property `White_Space`. -/
def isBlank (c : Char) : Bool :=
  ('\x09' ≤ c && c ≤ '\x0d') || c == ' ' || c == '\x85' || c == '\xa0' || c == '\u1680' ||
    ('\u2000' ≤ c && c ≤ '\u200a') || c == '\u2028' || c == '\u2029' || c == '\u202f' ||
    c == '\u205f' || c == '\u3000'

def dropEnd (p : Char → Bool) (cs : List Char) : List Char := (cs.reverse.dropWhile p).reverse

def trim (cs : List Char) : List Char := dropEnd isBlank (cs.dropWhile isBlank)

/-- A trimmed text does not end in a blank. -/
theorem getLast_trim (cs : List Char) (h : trim cs ≠ []) :
    isBlank ((trim cs).getLast h) = false := by
  have hr : (cs.dropWhile isBlank).reverse.dropWhile isBlank ≠ [] := by
    simpa [trim, dropEnd] using h
  simpa [trim, dropEnd, List.getLast_reverse] using List.head_dropWhile_not isBlank hr

end RecordSearch.Text
