import KeyRemap.Vocabulary

/-!
# The standard vocabulary

The keys that scripts name unless another vocabulary is given, in the order of listings.
-/
namespace KeyRemap.Vocabulary

def standardCategories : List KeyCategory := [
  ⟨"letters", "Letters", "Alphabetic keys"⟩,
  ⟨"digits", "Digits", "Top-row number keys"⟩,
  ⟨"function", "Function Keys", "F1 through F24"⟩,
  ⟨"modifiers", "Modifiers", "Physical modifier keys"⟩,
  ⟨"editing", "Editing & Whitespace", "Escape, Enter, Tab, Space and editing keys"⟩,
  ⟨"navigation", "Navigation", "Arrow keys and page navigation"⟩,
  ⟨"symbols", "Symbols", "Punctuation keys"⟩,
  ⟨"numpad", "Numpad", "Numeric keypad keys"⟩,
  ⟨"media", "Media", "Volume and playback control"⟩,
  ⟨"system", "System", "Power management keys"⟩,
  ⟨"browser", "Browser & Apps", "Browser and application launch keys"⟩,
  ⟨"commands", "Commands", "Clipboard and command keys"⟩,
  ⟨"international", "International", "JIS, Korean and ISO layout keys"⟩]

def standardKeys : List Key := [
  ⟨"A", "A", "letters", []⟩,
  ⟨"B", "B", "letters", []⟩,
  ⟨"C", "C", "letters", []⟩,
  ⟨"D", "D", "letters", []⟩,
  ⟨"E", "E", "letters", []⟩,
  ⟨"F", "F", "letters", []⟩,
  ⟨"G", "G", "letters", []⟩,
  ⟨"H", "H", "letters", []⟩,
  ⟨"I", "I", "letters", []⟩,
  ⟨"J", "J", "letters", []⟩,
  ⟨"K", "K", "letters", []⟩,
  ⟨"L", "L", "letters", []⟩,
  ⟨"M", "M", "letters", []⟩,
  ⟨"N", "N", "letters", []⟩,
  ⟨"O", "O", "letters", []⟩,
  ⟨"P", "P", "letters", []⟩,
  ⟨"Q", "Q", "letters", []⟩,
  ⟨"R", "R", "letters", []⟩,
  ⟨"S", "S", "letters", []⟩,
  ⟨"T", "T", "letters", []⟩,
  ⟨"U", "U", "letters", []⟩,
  ⟨"V", "V", "letters", []⟩,
  ⟨"W", "W", "letters", []⟩,
  ⟨"X", "X", "letters", []⟩,
  ⟨"Y", "Y", "letters", []⟩,
  ⟨"Z", "Z", "letters", []⟩,
  ⟨"Num0", "0", "digits", ["0"]⟩,
  ⟨"Num1", "1", "digits", ["1"]⟩,
  ⟨"Num2", "2", "digits", ["2"]⟩,
  ⟨"Num3", "3", "digits", ["3"]⟩,
  ⟨"Num4", "4", "digits", ["4"]⟩,
  ⟨"Num5", "5", "digits", ["5"]⟩,
  ⟨"Num6", "6", "digits", ["6"]⟩,
  ⟨"Num7", "7", "digits", ["7"]⟩,
  ⟨"Num8", "8", "digits", ["8"]⟩,
  ⟨"Num9", "9", "digits", ["9"]⟩,
  ⟨"F1", "F1", "function", []⟩,
  ⟨"F2", "F2", "function", []⟩,
  ⟨"F3", "F3", "function", []⟩,
  ⟨"F4", "F4", "function", []⟩,
  ⟨"F5", "F5", "function", []⟩,
  ⟨"F6", "F6", "function", []⟩,
  ⟨"F7", "F7", "function", []⟩,
  ⟨"F8", "F8", "function", []⟩,
  ⟨"F9", "F9", "function", []⟩,
  ⟨"F10", "F10", "function", []⟩,
  ⟨"F11", "F11", "function", []⟩,
  ⟨"F12", "F12", "function", []⟩,
  ⟨"F13", "F13", "function", []⟩,
  ⟨"F14", "F14", "function", []⟩,
  ⟨"F15", "F15", "function", []⟩,
  ⟨"F16", "F16", "function", []⟩,
  ⟨"F17", "F17", "function", []⟩,
  ⟨"F18", "F18", "function", []⟩,
  ⟨"F19", "F19", "function", []⟩,
  ⟨"F20", "F20", "function", []⟩,
  ⟨"F21", "F21", "function", []⟩,
  ⟨"F22", "F22", "function", []⟩,
  ⟨"F23", "F23", "function", []⟩,
  ⟨"F24", "F24", "function", []⟩,
  ⟨"LShift", "Left Shift", "modifiers", []⟩,
  ⟨"RShift", "Right Shift", "modifiers", []⟩,
  ⟨"LCtrl", "Left Control", "modifiers", []⟩,
  ⟨"RCtrl", "Right Control", "modifiers", []⟩,
  ⟨"LAlt", "Left Alt", "modifiers", []⟩,
  ⟨"RAlt", "Right Alt", "modifiers", []⟩,
  ⟨"LMeta", "Left Meta", "modifiers", []⟩,
  ⟨"RMeta", "Right Meta", "modifiers", []⟩,
  ⟨"Escape", "Escape", "editing", ["Esc"]⟩,
  ⟨"Enter", "Enter", "editing", ["Return"]⟩,
  ⟨"Backspace", "Backspace", "editing", []⟩,
  ⟨"Tab", "Tab", "editing", []⟩,
  ⟨"Space", "Space", "editing", []⟩,
  ⟨"CapsLock", "Caps Lock", "editing", []⟩,
  ⟨"NumLock", "Num Lock", "editing", []⟩,
  ⟨"ScrollLock", "Scroll Lock", "editing", []⟩,
  ⟨"PrintScreen", "Print Screen", "editing", []⟩,
  ⟨"Pause", "Pause", "editing", []⟩,
  ⟨"Insert", "Insert", "editing", ["Ins"]⟩,
  ⟨"Delete", "Delete", "editing", ["Del"]⟩,
  ⟨"Home", "Home", "navigation", []⟩,
  ⟨"End", "End", "navigation", []⟩,
  ⟨"PageUp", "Page Up", "navigation", []⟩,
  ⟨"PageDown", "Page Down", "navigation", []⟩,
  ⟨"Left", "Left Arrow", "navigation", []⟩,
  ⟨"Right", "Right Arrow", "navigation", []⟩,
  ⟨"Up", "Up Arrow", "navigation", []⟩,
  ⟨"Down", "Down Arrow", "navigation", []⟩,
  ⟨"LeftBracket", "[", "symbols", []⟩,
  ⟨"RightBracket", "]", "symbols", []⟩,
  ⟨"Backslash", "\\", "symbols", []⟩,
  ⟨"Semicolon", ";", "symbols", []⟩,
  ⟨"Quote", "'", "symbols", []⟩,
  ⟨"Comma", ",", "symbols", []⟩,
  ⟨"Period", ".", "symbols", []⟩,
  ⟨"Slash", "/", "symbols", []⟩,
  ⟨"Grave", "`", "symbols", []⟩,
  ⟨"Minus", "-", "symbols", []⟩,
  ⟨"Equal", "=", "symbols", []⟩,
  ⟨"Numpad0", "Keypad 0", "numpad", []⟩,
  ⟨"Numpad1", "Keypad 1", "numpad", []⟩,
  ⟨"Numpad2", "Keypad 2", "numpad", []⟩,
  ⟨"Numpad3", "Keypad 3", "numpad", []⟩,
  ⟨"Numpad4", "Keypad 4", "numpad", []⟩,
  ⟨"Numpad5", "Keypad 5", "numpad", []⟩,
  ⟨"Numpad6", "Keypad 6", "numpad", []⟩,
  ⟨"Numpad7", "Keypad 7", "numpad", []⟩,
  ⟨"Numpad8", "Keypad 8", "numpad", []⟩,
  ⟨"Numpad9", "Keypad 9", "numpad", []⟩,
  ⟨"NumpadDivide", "Keypad /", "numpad", []⟩,
  ⟨"NumpadMultiply", "Keypad *", "numpad", []⟩,
  ⟨"NumpadSubtract", "Keypad -", "numpad", []⟩,
  ⟨"NumpadAdd", "Keypad +", "numpad", []⟩,
  ⟨"NumpadEnter", "Keypad Enter", "numpad", []⟩,
  ⟨"NumpadDecimal", "Keypad .", "numpad", []⟩,
  ⟨"Mute", "Mute", "media", []⟩,
  ⟨"VolumeDown", "Volume Down", "media", []⟩,
  ⟨"VolumeUp", "Volume Up", "media", []⟩,
  ⟨"MediaPlayPause", "Play/Pause", "media", []⟩,
  ⟨"MediaStop", "Stop", "media", []⟩,
  ⟨"MediaPrevious", "Previous Track", "media", []⟩,
  ⟨"MediaNext", "Next Track", "media", []⟩,
  ⟨"Power", "Power", "system", []⟩,
  ⟨"Sleep", "Sleep", "system", []⟩,
  ⟨"Wake", "Wake", "system", []⟩,
  ⟨"BrowserBack", "Browser Back", "browser", []⟩,
  ⟨"BrowserForward", "Browser Forward", "browser", []⟩,
  ⟨"BrowserRefresh", "Browser Refresh", "browser", []⟩,
  ⟨"BrowserStop", "Browser Stop", "browser", []⟩,
  ⟨"BrowserSearch", "Browser Search", "browser", []⟩,
  ⟨"BrowserFavorites", "Browser Favorites", "browser", []⟩,
  ⟨"BrowserHome", "Browser Home", "browser", []⟩,
  ⟨"AppMail", "Mail", "browser", []⟩,
  ⟨"AppCalculator", "Calculator", "browser", []⟩,
  ⟨"AppMyComputer", "My Computer", "browser", []⟩,
  ⟨"Menu", "Menu", "commands", []⟩,
  ⟨"Help", "Help", "commands", []⟩,
  ⟨"Select", "Select", "commands", []⟩,
  ⟨"Execute", "Execute", "commands", []⟩,
  ⟨"Undo", "Undo", "commands", []⟩,
  ⟨"Redo", "Redo", "commands", []⟩,
  ⟨"Cut", "Cut", "commands", []⟩,
  ⟨"Copy", "Copy", "commands", []⟩,
  ⟨"Paste", "Paste", "commands", []⟩,
  ⟨"Find", "Find", "commands", []⟩,
  ⟨"Zenkaku", "Zenkaku/Hankaku", "international", ["全角", "半角"]⟩,
  ⟨"Katakana", "Katakana", "international", ["カタカナ"]⟩,
  ⟨"Hiragana", "Hiragana", "international", ["ひらがな"]⟩,
  ⟨"Henkan", "Henkan", "international", ["変換"]⟩,
  ⟨"Muhenkan", "Muhenkan", "international", ["無変換"]⟩,
  ⟨"Yen", "Yen", "international", ["円"]⟩,
  ⟨"Ro", "Ro", "international", ["ろ"]⟩,
  ⟨"KatakanaHiragana", "Katakana/Hiragana", "international", []⟩,
  ⟨"Hangeul", "Hangeul", "international", ["Hangul", "한글"]⟩,
  ⟨"Hanja", "Hanja", "international", ["한자"]⟩,
  ⟨"Iso102nd", "ISO Extra Key", "international", ["NonUsBackslash"]⟩]

/-- The vocabulary of the command line and of the check of a document. -/
def standard : Vocabulary := ⟨standardKeys, standardCategories⟩

end KeyRemap.Vocabulary
