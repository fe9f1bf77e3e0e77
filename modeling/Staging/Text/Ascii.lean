namespace Staging.Ascii

abbrev backspace : UInt8 := 8
abbrev tab : UInt8 := 9
abbrev lineFeed : UInt8 := 10
abbrev formFeed : UInt8 := 12
abbrev carriageReturn : UInt8 := 13
abbrev space : UInt8 := 32
abbrev quote : UInt8 := 34
abbrev hash : UInt8 := 35
abbrev percent : UInt8 := 37
abbrev ampersand : UInt8 := 38
abbrev plus : UInt8 := 43
abbrev comma : UInt8 := 44
abbrev minus : UInt8 := 45
abbrev point : UInt8 := 46
abbrev slash : UInt8 := 47
abbrev zero : UInt8 := 48
abbrev nine : UInt8 := 57
abbrev colon : UInt8 := 58
abbrev equals : UInt8 := 61
abbrev question : UInt8 := 63
abbrev upperA : UInt8 := 65
abbrev upperE : UInt8 := 69
abbrev upperF : UInt8 := 70
abbrev upperT : UInt8 := 84
abbrev upperX : UInt8 := 88
abbrev upperZ : UInt8 := 90
abbrev openBracket : UInt8 := 91
abbrev backslash : UInt8 := 92
abbrev closeBracket : UInt8 := 93
abbrev lowerA : UInt8 := 97
abbrev lowerB : UInt8 := 98
abbrev lowerE : UInt8 := 101
abbrev lowerF : UInt8 := 102
abbrev lowerN : UInt8 := 110
abbrev lowerR : UInt8 := 114
abbrev lowerT : UInt8 := 116
abbrev lowerU : UInt8 := 117
abbrev lowerX : UInt8 := 120
abbrev lowerZ : UInt8 := 122
abbrev openBrace : UInt8 := 123
abbrev closeBrace : UInt8 := 125

end Staging.Ascii
