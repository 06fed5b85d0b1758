import MessageCatalog.Locale.Basic

namespace MessageCatalog

structure YearLayouts where
  near : String
  common : String
  early : String

structure CalendarNames where
  shortDate : YearLayouts
  mediumDate : YearLayouts
  longDate : YearLayouts
  fullDate : YearLayouts
  shortMoment : YearLayouts
  shortTime : String
  fullTime : String
  shortMonths : List String
  months : List String
  aloneShortMonths : List String
  aloneMonths : List String
  shortDays : List String
  days : List String
  shortEras : List String
  eras : List String
  halves : List String
  offsetName : String
  yearShift : Option Nat

namespace CalendarNames

def english : CalendarNames where
  shortDate := ⟨"M/d/yy", "M/d/y", "M/d/y GGG"⟩
  mediumDate := ⟨"MMM d, y", "MMM d, y", "MMM d, y GGG"⟩
  longDate := ⟨"MMMM d, y", "MMMM d, y", "MMMM d, y GGG"⟩
  fullDate := ⟨"EEEE, MMMM d, y", "EEEE, MMMM d, y", "EEEE, MMMM d, y GGG"⟩
  shortMoment := ⟨"M/d/yy, h:mm\u202fa", "M/d/y, h:mm\u202fa", "M/d/y GGG, h:mm\u202fa"⟩
  shortTime := "h:mm\u202fa"
  fullTime := "h:mm:ss\u202fa"
  shortMonths := ["Jan", "Feb", "Mar", "Apr", "May", "Jun", "Jul", "Aug", "Sep", "Oct", "Nov", "Dec"]
  months :=
    ["January", "February", "March", "April", "May", "June", "July", "August", "September", "October",
      "November", "December"]
  aloneShortMonths :=
    ["Jan", "Feb", "Mar", "Apr", "May", "Jun", "Jul", "Aug", "Sep", "Oct", "Nov", "Dec"]
  aloneMonths :=
    ["January", "February", "March", "April", "May", "June", "July", "August", "September", "October",
      "November", "December"]
  shortDays := ["Mon", "Tue", "Wed", "Thu", "Fri", "Sat", "Sun"]
  days := ["Monday", "Tuesday", "Wednesday", "Thursday", "Friday", "Saturday", "Sunday"]
  shortEras := ["BC", "AD"]
  eras := ["Before Christ", "Anno Domini"]
  halves := ["AM", "PM"]
  offsetName := "GMT"
  yearShift := none

def britishEnglish : CalendarNames where
  shortDate := ⟨"dd/MM/y", "dd/MM/y", "dd/MM/y GGG"⟩
  mediumDate := ⟨"d MMM y", "d MMM y", "d MMM y GGG"⟩
  longDate := ⟨"d MMMM y", "d MMMM y", "d MMMM y GGG"⟩
  fullDate := ⟨"EEEE, d MMMM y", "EEEE, d MMMM y", "EEEE, d MMMM y GGG"⟩
  shortMoment := ⟨"dd/MM/y, HH:mm", "dd/MM/y, HH:mm", "dd/MM/y GGG, HH:mm"⟩
  shortTime := "HH:mm"
  fullTime := "HH:mm:ss"
  shortMonths := ["Jan", "Feb", "Mar", "Apr", "May", "Jun", "Jul", "Aug", "Sept", "Oct", "Nov", "Dec"]
  months :=
    ["January", "February", "March", "April", "May", "June", "July", "August", "September", "October",
      "November", "December"]
  aloneShortMonths :=
    ["Jan", "Feb", "Mar", "Apr", "May", "Jun", "Jul", "Aug", "Sept", "Oct", "Nov", "Dec"]
  aloneMonths :=
    ["January", "February", "March", "April", "May", "June", "July", "August", "September", "October",
      "November", "December"]
  shortDays := ["Mon", "Tue", "Wed", "Thu", "Fri", "Sat", "Sun"]
  days := ["Monday", "Tuesday", "Wednesday", "Thursday", "Friday", "Saturday", "Sunday"]
  shortEras := ["BC", "AD"]
  eras := ["Before Christ", "Anno Domini"]
  halves := ["am", "pm"]
  offsetName := "GMT"
  yearShift := none

def german : CalendarNames where
  shortDate := ⟨"dd.MM.yy", "dd.MM.y", "dd.MM.y GGG"⟩
  mediumDate := ⟨"dd.MM.y", "dd.MM.y", "dd.MM.y GGG"⟩
  longDate := ⟨"d. MMMM y", "d. MMMM y", "d. MMMM y GGG"⟩
  fullDate := ⟨"EEEE, d. MMMM y", "EEEE, d. MMMM y", "d MMMM 'Y' GGG, EEEE"⟩
  shortMoment := ⟨"dd.MM.yy, HH:mm", "dd.MM.y, HH:mm", "dd.MM.y GGG, HH:mm"⟩
  shortTime := "HH:mm"
  fullTime := "HH:mm:ss"
  shortMonths :=
    ["Jan.", "Feb.", "März", "Apr.", "Mai", "Juni", "Juli", "Aug.", "Sept.", "Okt.", "Nov.", "Dez."]
  months :=
    ["Januar", "Februar", "März", "April", "Mai", "Juni", "Juli", "August", "September", "Oktober",
      "November", "Dezember"]
  aloneShortMonths :=
    ["Jan", "Feb", "Mär", "Apr", "Mai", "Jun", "Jul", "Aug", "Sep", "Okt", "Nov", "Dez"]
  aloneMonths :=
    ["Januar", "Februar", "März", "April", "Mai", "Juni", "Juli", "August", "September", "Oktober",
      "November", "Dezember"]
  shortDays := ["Mo.", "Di.", "Mi.", "Do.", "Fr.", "Sa.", "So."]
  days := ["Montag", "Dienstag", "Mittwoch", "Donnerstag", "Freitag", "Samstag", "Sonntag"]
  shortEras := ["v. Chr.", "n. Chr."]
  eras := ["v. Chr.", "n. Chr."]
  halves := ["AM", "PM"]
  offsetName := "GMT"
  yearShift := none

def french : CalendarNames where
  shortDate := ⟨"dd/MM/y", "dd/MM/y", "dd/MM/y GGG"⟩
  mediumDate := ⟨"d MMM y", "d MMM y", "d MMM y GGG"⟩
  longDate := ⟨"d MMMM y", "d MMMM y", "d MMMM y GGG"⟩
  fullDate := ⟨"EEEE d MMMM y", "EEEE d MMMM y", "EEEE d MMMM y GGG"⟩
  shortMoment := ⟨"dd/MM/y HH:mm", "dd/MM/y HH:mm", "dd/MM/y GGG HH:mm"⟩
  shortTime := "HH:mm"
  fullTime := "HH:mm:ss"
  shortMonths :=
    ["janv.", "févr.", "mars", "avr.", "mai", "juin", "juil.", "août", "sept.", "oct.", "nov.", "déc."]
  months :=
    ["janvier", "février", "mars", "avril", "mai", "juin", "juillet", "août", "septembre", "octobre",
      "novembre", "décembre"]
  aloneShortMonths :=
    ["janv.", "févr.", "mars", "avr.", "mai", "juin", "juil.", "août", "sept.", "oct.", "nov.", "déc."]
  aloneMonths :=
    ["janvier", "février", "mars", "avril", "mai", "juin", "juillet", "août", "septembre", "octobre",
      "novembre", "décembre"]
  shortDays := ["lun.", "mar.", "mer.", "jeu.", "ven.", "sam.", "dim."]
  days := ["lundi", "mardi", "mercredi", "jeudi", "vendredi", "samedi", "dimanche"]
  shortEras := ["av. J.-C.", "ap. J.-C."]
  eras := ["avant Jésus-Christ", "après Jésus-Christ"]
  halves := ["AM", "PM"]
  offsetName := "UTC"
  yearShift := none

def mexicanSpanish : CalendarNames where
  shortDate := ⟨"dd/MM/yy", "dd/MM/y", "dd/MM/y GGG"⟩
  mediumDate := ⟨"d MMM y", "d MMM y", "d MMM y GGG"⟩
  longDate := ⟨"d 'de' MMMM 'de' y", "d 'de' MMMM 'de' y", "d 'de' MMMM 'de' y GGG"⟩
  fullDate := ⟨"EEEE, d 'de' MMMM 'de' y", "EEEE, d 'de' MMMM 'de' y", "EEEE, d 'de' MMMM 'de' y GGG"⟩
  shortMoment := ⟨"dd/MM/yy, hh:mm\u202fa", "dd/MM/y, hh:mm\u202fa", "dd/MM/y GGG, hh:mm\u202fa"⟩
  shortTime := "hh:mm\u202fa"
  fullTime := "hh:mm:ss\u202fa"
  shortMonths := ["ene", "feb", "mar", "abr", "may", "jun", "jul", "ago", "sep", "oct", "nov", "dic"]
  months :=
    ["enero", "febrero", "marzo", "abril", "mayo", "junio", "julio", "agosto", "septiembre", "octubre",
      "noviembre", "diciembre"]
  aloneShortMonths :=
    ["ene", "feb", "mar", "abr", "may", "jun", "jul", "ago", "sep", "oct", "nov", "dic"]
  aloneMonths :=
    ["enero", "febrero", "marzo", "abril", "mayo", "junio", "julio", "agosto", "septiembre", "octubre",
      "noviembre", "diciembre"]
  shortDays := ["lun", "mar", "mié", "jue", "vie", "sáb", "dom"]
  days := ["lunes", "martes", "miércoles", "jueves", "viernes", "sábado", "domingo"]
  shortEras := ["a.C.", "d.C."]
  eras := ["antes de Cristo", "después de Cristo"]
  halves := ["a.m.", "p.m."]
  offsetName := "GMT"
  yearShift := none

def japanese : CalendarNames where
  shortDate := ⟨"y/MM/dd", "y/MM/dd", "GGGy/MM/dd"⟩
  mediumDate := ⟨"y/MM/dd", "y/MM/dd", "GGGy/MM/dd"⟩
  longDate := ⟨"y年M月d日", "y年M月d日", "GGGy年M月d日"⟩
  fullDate := ⟨"y年M月d日EEEE", "y年M月d日EEEE", "GGGy年M月d日EEEE"⟩
  shortMoment := ⟨"y/MM/dd H:mm", "y/MM/dd H:mm", "GGGy/MM/dd H:mm"⟩
  shortTime := "H:mm"
  fullTime := "H:mm:ss"
  shortMonths := ["1月", "2月", "3月", "4月", "5月", "6月", "7月", "8月", "9月", "10月", "11月", "12月"]
  months := ["1月", "2月", "3月", "4月", "5月", "6月", "7月", "8月", "9月", "10月", "11月", "12月"]
  aloneShortMonths := ["1月", "2月", "3月", "4月", "5月", "6月", "7月", "8月", "9月", "10月", "11月", "12月"]
  aloneMonths := ["1月", "2月", "3月", "4月", "5月", "6月", "7月", "8月", "9月", "10月", "11月", "12月"]
  shortDays := ["月", "火", "水", "木", "金", "土", "日"]
  days := ["月曜日", "火曜日", "水曜日", "木曜日", "金曜日", "土曜日", "日曜日"]
  shortEras := ["紀元前", "西暦"]
  eras := ["紀元前", "西暦"]
  halves := ["午前", "午後"]
  offsetName := "GMT"
  yearShift := none

def korean : CalendarNames where
  shortDate := ⟨"yy/M/d", "y/M/d", "GGG y/M/d"⟩
  mediumDate := ⟨"y/M/d", "y/M/d", "GGG y/M/d"⟩
  longDate := ⟨"y년 MMMM d일", "y년 MMMM d일", "GGG y년 MMMM d일"⟩
  fullDate := ⟨"y년 MMMM d일 EEEE", "y년 MMMM d일 EEEE", "GGG y년 MMMM d일 EEEE"⟩
  shortMoment := ⟨"yy/M/d a h:mm", "y/M/d a h:mm", "GGG y/M/d a h:mm"⟩
  shortTime := "a h:mm"
  fullTime := "a h:mm:ss"
  shortMonths := ["1월", "2월", "3월", "4월", "5월", "6월", "7월", "8월", "9월", "10월", "11월", "12월"]
  months := ["1월", "2월", "3월", "4월", "5월", "6월", "7월", "8월", "9월", "10월", "11월", "12월"]
  aloneShortMonths := ["1월", "2월", "3월", "4월", "5월", "6월", "7월", "8월", "9월", "10월", "11월", "12월"]
  aloneMonths := ["1월", "2월", "3월", "4월", "5월", "6월", "7월", "8월", "9월", "10월", "11월", "12월"]
  shortDays := ["월", "화", "수", "목", "금", "토", "일"]
  days := ["월요일", "화요일", "수요일", "목요일", "금요일", "토요일", "일요일"]
  shortEras := ["BC", "AD"]
  eras := ["기원전", "서기"]
  halves := ["오전", "오후"]
  offsetName := "GMT"
  yearShift := none

def russian : CalendarNames where
  shortDate := ⟨"dd.MM.y", "dd.MM.y", "dd.MM.y GGG"⟩
  mediumDate := ⟨"d MMM y\u202fг.", "d MMM y\u202fг.", "d MMM y\u202fг. GGG"⟩
  longDate := ⟨"d MMMM y\u202fг.", "d MMMM y\u202fг.", "d MMMM y\u202fг. GGG"⟩
  fullDate := ⟨"EEEE, d MMMM y\u202fг.", "EEEE, d MMMM y\u202fг.", "EEEE, d MMMM y\u202fг. GGG"⟩
  shortMoment := ⟨"dd.MM.y, HH:mm", "dd.MM.y, HH:mm", "dd.MM.y GGG, HH:mm"⟩
  shortTime := "HH:mm"
  fullTime := "HH:mm:ss"
  shortMonths :=
    ["янв.", "февр.", "мар.", "апр.", "мая", "июн.", "июл.", "авг.", "сент.", "окт.", "нояб.", "дек."]
  months :=
    ["января", "февраля", "марта", "апреля", "мая", "июня", "июля", "августа", "сентября", "октября",
      "ноября", "декабря"]
  aloneShortMonths :=
    ["янв.", "февр.", "март", "апр.", "май", "июнь", "июль", "авг.", "сент.", "окт.", "нояб.", "дек."]
  aloneMonths :=
    ["январь", "февраль", "март", "апрель", "май", "июнь", "июль", "август", "сентябрь", "октябрь",
      "ноябрь", "декабрь"]
  shortDays := ["пн", "вт", "ср", "чт", "пт", "сб", "вс"]
  days := ["понедельник", "вторник", "среда", "четверг", "пятница", "суббота", "воскресенье"]
  shortEras := ["до н. э.", "н. э."]
  eras := ["до Рождества Христова", "от Рождества Христова"]
  halves := ["AM", "PM"]
  offsetName := "GMT"
  yearShift := none

def arabic : CalendarNames where
  shortDate := ⟨"d\u200f/M\u200f/y", "d\u200f/M\u200f/y", "d-M-y GGG"⟩
  mediumDate := ⟨"dd\u200f/MM\u200f/y", "dd\u200f/MM\u200f/y", "dd-MM-y GGG"⟩
  longDate := ⟨"d MMMM y", "d MMMM y", "GGG y MMMM d"⟩
  fullDate := ⟨"EEEE، d MMMM y", "EEEE، d MMMM y", "GGG y MMMM d, EEEE"⟩
  shortMoment := ⟨"d\u200f/M\u200f/y، h:mm a", "d\u200f/M\u200f/y، h:mm a", "d-M-y GGG، h:mm a"⟩
  shortTime := "h:mm a"
  fullTime := "h:mm:ss a"
  shortMonths :=
    ["يناير", "فبراير", "مارس", "أبريل", "مايو", "يونيو", "يوليو", "أغسطس", "سبتمبر", "أكتوبر",
      "نوفمبر", "ديسمبر"]
  months :=
    ["يناير", "فبراير", "مارس", "أبريل", "مايو", "يونيو", "يوليو", "أغسطس", "سبتمبر", "أكتوبر",
      "نوفمبر", "ديسمبر"]
  aloneShortMonths :=
    ["يناير", "فبراير", "مارس", "أبريل", "مايو", "يونيو", "يوليو", "أغسطس", "سبتمبر", "أكتوبر",
      "نوفمبر", "ديسمبر"]
  aloneMonths :=
    ["يناير", "فبراير", "مارس", "أبريل", "مايو", "يونيو", "يوليو", "أغسطس", "سبتمبر", "أكتوبر",
      "نوفمبر", "ديسمبر"]
  shortDays := ["الاثنين", "الثلاثاء", "الأربعاء", "الخميس", "الجمعة", "السبت", "الأحد"]
  days := ["الاثنين", "الثلاثاء", "الأربعاء", "الخميس", "الجمعة", "السبت", "الأحد"]
  shortEras := ["ق.م", "م"]
  eras := ["قبل الميلاد", "ميلادي"]
  halves := ["ص", "م"]
  offsetName := "غرينتش\u061c"
  yearShift := none

def thai : CalendarNames where
  shortDate := ⟨"d/M/y", "d/M/y", "d/M/y"⟩
  mediumDate := ⟨"d MMM y", "d MMM y", "d MMM y"⟩
  longDate := ⟨"d MMMM y", "d MMMM y", "d MMMM y"⟩
  fullDate := ⟨"EEEEที่ d MMMM y", "EEEEที่ d MMMM y", "EEEEที่ d MMMM y"⟩
  shortMoment := ⟨"d/M/y HH:mm", "d/M/y HH:mm", "d/M/y HH:mm"⟩
  shortTime := "HH:mm"
  fullTime := "HH:mm:ss"
  shortMonths :=
    ["ม.ค.", "ก.พ.", "มี.ค.", "เม.ย.", "พ.ค.", "มิ.ย.", "ก.ค.", "ส.ค.", "ก.ย.", "ต.ค.", "พ.ย.", "ธ.ค."]
  months :=
    ["มกราคม", "กุมภาพันธ์", "มีนาคม", "เมษายน", "พฤษภาคม", "มิถุนายน", "กรกฎาคม", "สิงหาคม",
      "กันยายน", "ตุลาคม", "พฤศจิกายน", "ธันวาคม"]
  aloneShortMonths :=
    ["ม.ค.", "ก.พ.", "มี.ค.", "เม.ย.", "พ.ค.", "มิ.ย.", "ก.ค.", "ส.ค.", "ก.ย.", "ต.ค.", "พ.ย.", "ธ.ค."]
  aloneMonths :=
    ["มกราคม", "กุมภาพันธ์", "มีนาคม", "เมษายน", "พฤษภาคม", "มิถุนายน", "กรกฎาคม", "สิงหาคม",
      "กันยายน", "ตุลาคม", "พฤศจิกายน", "ธันวาคม"]
  shortDays := ["จันทร์", "อังคาร", "พุธ", "พฤหัส", "ศุกร์", "เสาร์", "อาทิตย์"]
  days := ["วันจันทร์", "วันอังคาร", "วันพุธ", "วันพฤหัสบดี", "วันศุกร์", "วันเสาร์", "วันอาทิตย์"]
  shortEras := ["ก่อน ค.ศ.", "ค.ศ."]
  eras := ["ปีก่อนคริสตกาล", "คริสต์ศักราช"]
  halves := ["AM", "PM"]
  offsetName := "GMT"
  yearShift := some 543

def root : CalendarNames where
  shortDate := ⟨"y-MM-dd", "y-MM-dd", "GGG y-MM-dd"⟩
  mediumDate := ⟨"y MMM d", "y MMM d", "GGG y MMM d"⟩
  longDate := ⟨"y MMMM d", "y MMMM d", "GGG y MMMM d"⟩
  fullDate := ⟨"y MMMM d, EEEE", "y MMMM d, EEEE", "GGG y MMMM d, EEEE"⟩
  shortMoment := ⟨"y-MM-dd HH:mm", "y-MM-dd HH:mm", "GGG y-MM-dd HH:mm"⟩
  shortTime := "HH:mm"
  fullTime := "HH:mm:ss"
  shortMonths := ["M01", "M02", "M03", "M04", "M05", "M06", "M07", "M08", "M09", "M10", "M11", "M12"]
  months := ["M01", "M02", "M03", "M04", "M05", "M06", "M07", "M08", "M09", "M10", "M11", "M12"]
  aloneShortMonths :=
    ["M01", "M02", "M03", "M04", "M05", "M06", "M07", "M08", "M09", "M10", "M11", "M12"]
  aloneMonths := ["M01", "M02", "M03", "M04", "M05", "M06", "M07", "M08", "M09", "M10", "M11", "M12"]
  shortDays := ["Mon", "Tue", "Wed", "Thu", "Fri", "Sat", "Sun"]
  days := ["Mon", "Tue", "Wed", "Thu", "Fri", "Sat", "Sun"]
  shortEras := ["BCE", "CE"]
  eras := ["BCE", "CE"]
  halves := ["AM", "PM"]
  offsetName := "GMT"
  yearShift := none

def table : List (List String × CalendarNames) :=
  [(["en"], english), (["en-GB"], britishEnglish), (["de"], german), (["fr"], french),
    (["es"], mexicanSpanish), (["ja"], japanese), (["ko"], korean), (["ru"], russian),
    (["ar"], arabic), (["th"], thai)]

def ofLocale (l : Locale) : CalendarNames :=
  (l.row? table).getD root

end CalendarNames

end MessageCatalog
